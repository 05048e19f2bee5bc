import Telematics.Codec
import Telematics.Detection
import Telematics.Http.Render
import Telematics.Metrics
import Telematics.Proofs.ActiveMinutes
import Telematics.Proofs.CandidateClimbs
import Telematics.Proofs.CentredMeans
import Telematics.Proofs.ChangeLogs
import Telematics.Proofs.ClimbLoops
import Telematics.Proofs.ClimbPositions
import Telematics.Proofs.CountedRequests
import Telematics.Proofs.CoveredTime
import Telematics.Proofs.CutRanges
import Telematics.Proofs.DefaultTunables
import Telematics.Proofs.DetectedSegments
import Telematics.Proofs.FloatArithmetic
import Telematics.Proofs.FloatOrder
import Telematics.Proofs.GapChains
import Telematics.Proofs.GapComponents
import Telematics.Proofs.GatedCalls
import Telematics.Proofs.GuardedActivity
import Telematics.Proofs.GuardedCalls
import Telematics.Proofs.GuardedClimbs
import Telematics.Proofs.GuardedIgnition
import Telematics.Proofs.GuardedRecharge
import Telematics.Proofs.GuardedRefuel
import Telematics.Proofs.GuardedSegments
import Telematics.Proofs.HttpAnswers
import Telematics.Proofs.IdleHistory
import Telematics.Proofs.IdleMinutes
import Telematics.Proofs.IdleRuns
import Telematics.Proofs.IsolatedVehicles
import Telematics.Proofs.KeptStarts
import Telematics.Proofs.LaterClocks
import Telematics.Proofs.LaterRanges
import Telematics.Proofs.LogReads
import Telematics.Proofs.Merging
import Telematics.Proofs.MinuteChains
import Telematics.Proofs.NarrowedClimbs
import Telematics.Proofs.NearbyValues
import Telematics.Proofs.OngoingIdling
import Telematics.Proofs.Outcomes
import Telematics.Proofs.ParkedRecharge
import Telematics.Proofs.ReadPlans
import Telematics.Proofs.RelativeRises
import Telematics.Proofs.SegmentLists
import Telematics.Proofs.ShiftedCalls
import Telematics.Proofs.SteadyCharges
import Telematics.Proofs.StepFills
import Telematics.Proofs.StrayWindows
import Telematics.Proofs.TestedGaps
import Telematics.Proofs.TroughsAndPeaks
import Telematics.Proofs.ValidRequests
import Telematics.Proofs.WrittenQueries
import Telematics.Service
import Telematics.Settings
import Telematics.Source.Rehearsed

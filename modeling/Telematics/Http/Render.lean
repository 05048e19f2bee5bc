import Telematics.Codec
import Telematics.Http.App

/-!
# Responses as documents

The JSON document of each kind of body. Metrics are plain text and an empty body is nothing.
-/

set_option autoImplicit false

namespace Telematics.Http

/-- The document of a page: the segments, and what they answer. -/
def Page.toDocument (p : Page) : Document :=
  .object
    [("data", .list (p.data.map Segment.toDocument)),
      ("meta", .object
        [("count", .whole p.data.length), ("tokenId", .whole p.request.token.toNat),
          ("mechanism", p.mechanism.toDocument), ("from", .instant p.request.asked.start),
          ("to", .instant p.request.asked.stop)])]

/-- The document of the health of the service. -/
def healthDocument : Document :=
  .object
    [("status", .text "healthy"), ("version", .text version),
      ("mechanisms", .list (Mechanism.all.map Mechanism.toDocument))]

/-- The JSON document of a body, if it has one. -/
def Body.toDocument? : Body → Option Document
  | .empty => none
  | .health => some healthDocument
  | .metrics _ => none
  | .page p => some p.toDocument
  | .error text => some (.object [("error", .text text)])

/-- The text of a body. -/
def Body.render (b : Body) : String :=
  match b with
  | .metrics lines => String.join (lines.map fun line => line ++ "\n")
  | _ => (b.toDocument?.map Document.render).getD ""

end Telematics.Http

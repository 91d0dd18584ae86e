import NgxMapping.Lib.Bytes
import NgxMapping.Lib.UMap

/-!
The response the handlers fill: `httpd::response`.
-/

namespace NgxMapping.HttpResponse

open Lib

/-- `status_type`. -/
inductive StatusType
  | ok | created | accepted | noContent | multipleChoices | movedPermanently | movedTemporarily
  | notModified | badRequest | unauthorized | forbidden | notFound | internalServerError
  | notImplemented | badGateway | serviceUnavailable
  deriving DecidableEq

/-- The response; the status has no initial value. `added` is no field of the source: it
keeps the calls of `add_header`, which the containers do not. -/
structure Response where
  status : Option StatusType := none
  headers : UMap Bytes Bytes := UMap.empty
  cookies : List Bytes := []
  content : Bytes := []
  contentType : Bytes := []
  added : List (Bytes × Bytes) := []

/-- `add_header`. The second test is not an `else` of the first, so that a cookie is also
stored among the headers. -/
def Response.addHeader (r : Response) (h value : Bytes) : Response :=
  let r := { r with added := r.added ++ [(h, value)] }
  let r := if h = lit "Set-Cookie" then { r with cookies := r.cookies ++ [value] } else r
  if h = lit "Content-Type" then { r with contentType := value }
  else { r with headers := r.headers.insert h value }

def Response.setStatus (r : Response) (status : StatusType) : Response :=
  { r with status := some status }

def Response.setMimeType (r : Response) (mime : Bytes) : Response := { r with contentType := mime }

@[simp] lemma added_addHeader (r : Response) (h v : Bytes) :
    (r.addHeader h v).added = r.added ++ [(h, v)] := by
  unfold Response.addHeader
  dsimp only
  split <;> split <;> rfl

lemma cookies_addHeader (r : Response) (h v : Bytes) :
    (r.addHeader h v).cookies = if h = lit "Set-Cookie" then r.cookies ++ [v] else r.cookies := by
  unfold Response.addHeader
  dsimp only
  split <;> split <;> rfl

@[simp] lemma cookies_addCookie (r : Response) (v : Bytes) :
    (r.addHeader (lit "Set-Cookie") v).cookies = r.cookies ++ [v] := by
  rw [cookies_addHeader, if_pos rfl]

@[simp] lemma status_addHeader (r : Response) (h v : Bytes) :
    (r.addHeader h v).status = r.status := by
  unfold Response.addHeader
  dsimp only
  split <;> split <;> rfl

@[simp] lemma status_setStatus (r : Response) (s : StatusType) :
    (r.setStatus s).status = some s := rfl

end NgxMapping.HttpResponse

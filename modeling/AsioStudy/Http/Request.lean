import AsioStudy.Cpp.Char

/-!
# HTTP requests

The value types `header` and `request` of the HTTP servers.  The two version fields of a request
are plain `int`s that no constructor initialises: `none` stands for such an indeterminate value.
-/

namespace AsioStudy

namespace Http

/-- A header line, `struct header`. -/
structure Header where
  /-- The field name. -/
  name : Bytes
  /-- The field value. -/
  value : Bytes
  deriving DecidableEq, Repr

/-- A request received from a client, `struct request`. -/
structure Request where
  /-- The request method. -/
  method : Bytes
  /-- The request target, as it was sent. -/
  uri : Bytes
  /-- The major version, `none` while it has not been written. -/
  httpVersionMajor : Option Int32
  /-- The minor version, `none` while it has not been written. -/
  httpVersionMinor : Option Int32
  /-- The header lines in order. -/
  headers : List Header
  deriving DecidableEq, Repr

/-- A default-constructed request. -/
def Request.empty : Request := ⟨[], [], none, none, []⟩

/-- `headers.back() = f(headers.back())`; an empty list, for which `back()` is undefined, is left
alone. -/
def modifyBack (f : Header → Header) (headers : List Header) : List Header :=
  match headers.getLast? with
  | none => headers
  | some h => headers.dropLast ++ [f h]

/-- Modifying the last header does not change the emptiness of the list. -/
@[simp] lemma isEmpty_modifyBack (f : Header → Header) (hs : List Header) :
    (modifyBack f hs).isEmpty = hs.isEmpty := by
  unfold modifyBack
  cases hs with
  | nil => rfl
  | cons a hs =>
    rw [List.getLast?_cons]
    cases hs <;> rfl

/-- The last header of a list that was just extended is the one that was added. -/
@[simp] lemma modifyBack_append_singleton (f : Header → Header) (hs : List Header) (h : Header) :
    modifyBack f (hs ++ [h]) = hs ++ [f h] := by
  simp [modifyBack]

/-- `headers.push_back(header())`. -/
def Request.pushHeader (req : Request) : Request :=
  { req with headers := req.headers ++ [⟨[], []⟩] }

/-- `headers.back().name.push_back(input)`. -/
def Request.pushName (req : Request) (input : UInt8) : Request :=
  { req with headers := modifyBack (fun h => { h with name := h.name ++ [input] }) req.headers }

/-- `headers.back().value.push_back(input)`. -/
def Request.pushValue (req : Request) (input : UInt8) : Request :=
  { req with headers := modifyBack (fun h => { h with value := h.value ++ [input] }) req.headers }

end Http

end AsioStudy

import EditorTabs.Json.Token

/-!
# Reading JSON

A machine takes one token at a time. It knows what it wants next and which containers are open, so
a text is read by folding the machine over its tokens. How deep containers may stand inside each
other is a parameter: each is read by a call in another one, and the calls that the reader was
reached by count as well.
-/
namespace EditorTabs.Json

/-- A nesting that is read wherever the reader is called from; the limit of each place is higher by
a few. -/
def commonNesting : Nat := 980

/-- An open container: the items so far, last first; or the members so far and the key whose value
comes next. -/
inductive Frame where
  | items (items : List Json)
  | member (members : List (Text × Json)) (key : Text)

/-- What comes next: a value; the first item of an array or its end; the first key of an object or
its end; a key; the colon after a key; or, after a value, what its container allows. -/
inductive Awaiting where
  | value
  | firstItem
  | firstKey
  | key (members : List (Text × Json))
  | colon (members : List (Text × Json)) (key : Text)
  | afterValue (value : Json)

structure State where
  awaiting : Awaiting
  frames : List Frame

def State.initial : State := ⟨.value, []⟩

/-- A problem at a place that is not located yet, or another fault. -/
abbrev Step := Except ((Problem × Nat) ⊕ Fault)

def problemAt {α : Type} (problem : Problem) (position : Nat) : Step α :=
  .error (.inl (problem, position))

def stepValue (limit : Nat) (frames : List Frame) (t : Located) : Step State :=
  match t.token with
  | .scalar value => .ok ⟨.afterValue value, frames⟩
  | .text value => .ok ⟨.afterValue (.text value), frames⟩
  | .openBracket =>
    if limit ≤ frames.length then .error (.inr (.tooDeep .array))
    else .ok ⟨.firstItem, .items [] :: frames⟩
  | .openBrace =>
    if limit ≤ frames.length then .error (.inr (.tooDeep .object))
    else .ok ⟨.firstKey, frames⟩
  | .brokenText problem position => problemAt problem position
  | .hugeNumber digits => .error (.inr (.tooManyDigits digits))
  | _ => problemAt .value t.position

def stepKey (members : List (Text × Json)) (frames : List Frame) (t : Located) : Step State :=
  match t.token with
  | .text key => .ok ⟨.colon members key, frames⟩
  | .brokenText problem position => problemAt problem position
  | _ => problemAt .propertyName t.position

def stepAfter (value : Json) (frames : List Frame) (t : Located) : Step State :=
  match frames, t.token with
  | [], _ => problemAt .extraData t.position
  | .items items :: outer, .comma => .ok ⟨.value, .items (value :: items) :: outer⟩
  | .items items :: outer, .closeBracket =>
    .ok ⟨.afterValue (.array (value :: items).reverse), outer⟩
  | .member members key :: outer, .comma => .ok ⟨.key (Assoc.put key value members), outer⟩
  | .member members key :: outer, .closeBrace =>
    .ok ⟨.afterValue (.object (Assoc.put key value members)), outer⟩
  | _, _ => problemAt .comma t.position

def State.step (limit : Nat) (state : State) (t : Located) : Step State :=
  match state.awaiting, t.token with
  | .firstItem, .closeBracket => .ok ⟨.afterValue (.array []), state.frames.tail⟩
  | .firstKey, .closeBrace => .ok ⟨.afterValue (.object []), state.frames⟩
  | .value, _ => stepValue limit state.frames t
  | .firstItem, _ => stepValue limit state.frames t
  | .firstKey, _ => stepKey [] state.frames t
  | .key members, _ => stepKey members state.frames t
  | .colon members key, .colon => .ok ⟨.value, .member members key :: state.frames⟩
  | .colon _ _, _ => problemAt .colon t.position
  | .afterValue value, _ => stepAfter value state.frames t

def State.finish (length : Nat) (state : State) : Step Json :=
  match state.awaiting, state.frames with
  | .value, _ => problemAt .value length
  | .firstItem, _ => problemAt .value length
  | .firstKey, _ => problemAt .propertyName length
  | .key _, _ => problemAt .propertyName length
  | .colon _ _, _ => problemAt .colon length
  | .afterValue value, [] => .ok value
  | .afterValue _, _ :: _ => problemAt .comma length

def ofTokens (limit length : Nat) (tokens : List Located) : Step Json := do
  let state ← tokens.foldlM (State.step limit) State.initial
  state.finish length

/-- The value of a text, which may not start with a byte order mark. -/
def readAll (limit : Nat) (s : Text) : Step Json :=
  match s with
  | c :: _ =>
    if c.toNat = 0xFEFF then problemAt .byteOrderMark 0 else ofTokens limit s.length (tokens s)
  | [] => ofTokens limit 0 []

def read (s : Text) (limit : Nat := commonNesting) : Except Fault Json :=
  match readAll limit s with
  | .ok value => .ok value
  | .error (.inl (problem, position)) => .error (.malformed (.locate s problem position))
  | .error (.inr fault) => .error fault

end EditorTabs.Json

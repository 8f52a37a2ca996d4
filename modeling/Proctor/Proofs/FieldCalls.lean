import Proctor.Proofs.CanonicalText

/-!
Fields by the calls that fill them. A call appends values under one key, so after some calls a key has the
values of its own calls in their order, whatever the calls on other keys were and whenever they came.

Main statement: `text_of_calls_eq_iff`, for all sequences of calls.
-/

namespace Proctor.Signature

/-- A call that appends values under a key. -/
inductive Call
  | add (key : String) (value : Bytes)
  | addAll (key : String) (values : List Bytes)
  | addTime (key : String) (time : Instant)

namespace Call

def key : Call → String
  | .add key _ | .addAll key _ | .addTime key _ => key

/-- A time is appended as its text. -/
def values : Call → List Bytes
  | .add _ value => [value]
  | .addAll _ values => values
  | .addTime _ time => [Utf8.encode time.canonical]

def apply (f : Fields) : Call → Fields
  | .add key value => f.add key value
  | .addAll key values => f.addAll key values
  | .addTime key time => f.addTime key time

theorem valuesOf_apply (f : Fields) (call : Call) (key : String) :
    (call.apply f).valuesOf key = f.valuesOf key ++ if call.key = key then call.values else [] := by
  cases call with
  | add own value => exact f.valuesOf_add own value key
  | addAll own values => exact f.valuesOf_addAll own values key
  | addTime own time => exact f.valuesOf_add own (Utf8.encode time.canonical) key

/-- The calls on a key, in order. -/
def on (key : String) (calls : List Call) : List Call :=
  calls.filter (·.key = key)

theorem on_swap (key : String) {call call' : Call} (h : call.key ≠ call'.key) (calls : List Call) :
    on key (call :: call' :: calls) = on key (call' :: call :: calls) := by
  by_cases hcall : call.key = key
  · have hcall' : call'.key ≠ key := fun he => h (hcall.trans he.symm)
    simp [on, hcall, hcall']
  · simp [on, List.filter_cons, hcall]

/-- What calls append under a key, in order. -/
def appended (key : String) (calls : List Call) : List Bytes :=
  (on key calls).flatMap values

theorem appended_cons (key : String) (call : Call) (calls : List Call) :
    appended key (call :: calls) =
      (if call.key = key then call.values else []) ++ appended key calls := by
  by_cases h : call.key = key <;> simp [appended, on, h]

end Call

namespace Fields

def applyAll (f : Fields) (calls : List Call) : Fields :=
  calls.foldl Call.apply f

def ofCalls (calls : List Call) : Fields :=
  empty.applyAll calls

theorem valuesOf_applyAll (f : Fields) (calls : List Call) (key : String) :
    (f.applyAll calls).valuesOf key = f.valuesOf key ++ Call.appended key calls := by
  induction calls generalizing f with
  | nil => exact (List.append_nil _).symm
  | cons call calls ih =>
    calc (f.applyAll (call :: calls)).valuesOf key
        = (call.apply f).valuesOf key ++ Call.appended key calls := ih (call.apply f)
      _ = f.valuesOf key ++ Call.appended key (call :: calls) := by
        rw [Call.valuesOf_apply, Call.appended_cons, List.append_assoc]

/-- After calls on fresh fields a key has what was appended under it, and nothing when there was no value. -/
theorem valuesOf_ofCalls (calls : List Call) (key : String) :
    (ofCalls calls).valuesOf key = Call.appended key calls := by
  rw [ofCalls, valuesOf_applyAll, valuesOf_empty, List.nil_append]

/-- Calls on fresh fields give one text exactly when they append the same values in the same order under
every key, and a key that gets no value is as good as absent. In particular calls on different keys can
change places: sequences with the same calls on each key give one text. -/
theorem text_of_calls_eq_iff (calls calls' : List Call) :
    ((ofCalls calls).encode = (ofCalls calls').encode ↔
      ∀ key, Call.appended key calls = Call.appended key calls') ∧
    ((∀ key, Call.on key calls = Call.on key calls') →
      (ofCalls calls).encode = (ofCalls calls').encode) := by
  have htext : (ofCalls calls).encode = (ofCalls calls').encode ↔
      ∀ key, Call.appended key calls = Call.appended key calls' := by
    simp only [encode_eq_iff, valuesOf_ofCalls]
  refine ⟨htext, fun hsame => htext.2 fun key => ?_⟩
  rw [Call.appended, Call.appended, hsame key]

/-- Calls on `a` and `b` change places, and those on `b` do not. -/
theorem text_of_interleaved_calls :
    let first : Call := .add "b" [1]
    let other : Call := .add "a" [38]
    let later : Call := .addTime "b" (.ofSeconds 0)
    (∀ key, Call.on key [first, other, later] = Call.on key [other, first, later]) ∧
      (ofCalls [first, other, later]).encode = (ofCalls [other, first, later]).encode ∧
      (ofCalls [first, other, later]).encode ≠ (ofCalls [later, other, first]).encode := by
  intro first other later
  have hsame (key : String) : Call.on key [first, other, later] = Call.on key [other, first, later] :=
    Call.on_swap key (by decide) [later]
  have hdiffer : Call.appended "b" [first, other, later] ≠ Call.appended "b" [later, other, first] := by
    decide +kernel
  exact ⟨hsame, (text_of_calls_eq_iff _ _).2 hsame,
    fun htext => hdiffer ((text_of_calls_eq_iff _ _).1.1 htext "b")⟩

/-- The empty key and the empty value are written, a key without values is not. -/
example : (ofCalls [.add "z" [49], .addAll "tags" [], .add "" [], .add "z" [38]]).encode =
    "=&z=1&z=%26" := by
  decide

end Fields

end Proctor.Signature

import Mathlib.Tactic.FinCases
import Proctor.Admission
import Proctor.Proofs.Decimal
import Proctor.Proofs.Trimming

/-!
What the options of a problem do to the limits of an action. Every limit is settled by the last option that
gives a number for it, whatever other options stand before, between and behind.

Main statement: `limits_of_options`, for all limits and lists of options.
-/

namespace Proctor

theorem splitOption_eq_some_iff {option left right : String} :
    splitOption option = some (left, right) ↔
      option.toList = left.toList ++ '=' :: right.toList ∧ '=' ∉ left.toList := by
  have hparts : option.toList.takeWhile (· ≠ '=') = left.toList ∧
      option.toList.dropWhile (· ≠ '=') = '=' :: right.toList ↔
        option.toList = left.toList ++ '=' :: right.toList ∧ '=' ∉ left.toList := by
    rw [takeWhile_dropWhile_eq_iff, and_congr_right_iff]
    intro _
    simp only [decide_eq_true_eq, List.head?_cons, Option.mem_some_iff, forall_eq', decide_eq_false_iff_not,
      not_not, and_true]
    exact ⟨fun h hm => h _ hm rfl, fun h c hc he => h (he ▸ hc)⟩
  rw [← hparts, splitOption]
  cases hrest : option.toList.dropWhile (· ≠ '=') with
  | nil => simp
  | cons c rest =>
    obtain ⟨-, -, hc⟩ := takeWhile_dropWhile_eq_iff.1 ⟨rfl, hrest⟩
    have hc : c = '=' := by simpa using hc c rfl
    simp [hc, ← String.toList_inj]

namespace Limits

/-- The limits with the keys that name them. -/
def slots : List (String × (Limits → Nat)) := [
  ("maxCPU", cpu), ("maxSession", session), ("maxTimeout", timeout), ("maxFD", descriptors),
  ("maxFileSize", fileSize), ("maxMemory", memory), ("maxThreads", threads)]

theorem keys_eq : keys = slots.map Prod.fst :=
  rfl

/-- An option is a key, the first `=` and a text, with blanks around both. -/
def Assigns (option key text : String) : Prop :=
  ∃ left right : String, option.toList = left.toList ++ '=' :: right.toList ∧ '=' ∉ left.toList ∧
    Text.Surrounds left key ∧ Text.Surrounds right text

/-- An option gives a number for a key. -/
def Gives (option key : String) (n : Nat) : Prop :=
  ∃ text, Assigns option key text ∧ Decimal.IsNumeral text n ∧ n < bound

/-- An option names a limit, but gives no number for it. -/
def GivesNoNumber (option : String) : Prop :=
  ∃ slot ∈ slots, ∃ text, Assigns option slot.1 text ∧ ∀ n < bound, ¬Decimal.IsNumeral text n

/-- A limit after some options: what the last option that gives a number for it gives, or what it was
before when there is none. -/
inductive Settled (options : List String) (key : String) (before : Nat) : Nat → Prop
  | given {earlier later : List String} {option : String} {n : Nat} :
    options = earlier ++ option :: later → Gives option key n → (∀ o ∈ later, ∀ m, ¬Gives o key m) →
    Settled options key before n
  | kept : (∀ o ∈ options, ∀ m, ¬Gives o key m) → Settled options key before before

/-- All limits are settled by the options. -/
def Overridden (before : Limits) (options : List String) (after : Limits) : Prop :=
  ∀ slot ∈ slots, Settled options slot.1 (slot.2 before) (slot.2 after)

/-! ### What an option says -/

theorem assigns_iff {option key text : String} :
    Assigns option key text ↔ ∃ left right, splitOption option = some (left, right) ∧
      Text.trim left = key ∧ Text.trim right = text := by
  simp only [Assigns, splitOption_eq_some_iff, Text.trim_eq_iff, and_assoc]

theorem Assigns.unique {option key key' text text' : String} (h : Assigns option key text)
    (h' : Assigns option key' text') : key = key' ∧ text = text' := by
  obtain ⟨left, right, hsplit, rfl, rfl⟩ := assigns_iff.1 h
  obtain ⟨left', right', hsplit', rfl, rfl⟩ := assigns_iff.1 h'
  rw [hsplit] at hsplit'
  cases hsplit'
  exact ⟨rfl, rfl⟩

theorem Assigns.gives_iff {option key key' text : String} {n : Nat} (h : Assigns option key text) :
    Gives option key' n ↔ key' = key ∧ Decimal.read? bound text = some n := by
  rw [Decimal.read?_eq_some_iff]
  constructor
  · rintro ⟨text', h', hnumber⟩
    obtain ⟨rfl, rfl⟩ := h.unique h'
    exact ⟨rfl, hnumber⟩
  · rintro ⟨rfl, hnumber⟩
    exact ⟨text, h, hnumber⟩

theorem Gives.unique {option key : String} {m n : Nat} (hm : Gives option key m) (hn : Gives option key n) :
    m = n := by
  obtain ⟨text, hassigns, hread⟩ := id hm
  have hm := (hassigns.gives_iff.1 hm).2
  rw [(hassigns.gives_iff.1 hn).2] at hm
  exact (Option.some.inj hm).symm

theorem Assigns.givesNoNumber_iff {option key text : String} (h : Assigns option key text) :
    GivesNoNumber option ↔ key ∈ keys ∧ Decimal.read? bound text = none := by
  have hnone : Decimal.read? bound text = none ↔ ∀ n < bound, ¬Decimal.IsNumeral text n := by
    simp only [Option.eq_none_iff_forall_ne_some, ne_eq, Decimal.read?_eq_some_iff, not_and']
  rw [hnone, keys_eq, List.mem_map]
  constructor
  · rintro ⟨slot, hslot, text', h', hnumber⟩
    obtain ⟨rfl, rfl⟩ := h.unique h'
    exact ⟨⟨slot, hslot, rfl⟩, hnumber⟩
  · rintro ⟨⟨slot, hslot, rfl⟩, hnumber⟩
    exact ⟨slot, hslot, text, h, hnumber⟩

/-! ### One option -/

/-- What one option does to the limits, with what is said of the option. -/
inductive Effect (l : Limits) (option : String) : Limits × Bool → Prop
  | sets {key : String} {n : Nat} : key ∈ keys → Gives option key n → ¬GivesNoNumber option →
    Effect l option ((l.set? key n).getD l, false)
  | ignored : (∀ key n, ¬Gives option key n) → GivesNoNumber option → Effect l option (l, true)
  | skipped : (∀ key ∈ keys, ∀ n, ¬Gives option key n) → ¬GivesNoNumber option → Effect l option (l, false)

theorem effect_applyOption (l : Limits) (option : String) : Effect l option (l.applyOption option) := by
  rw [applyOption]
  cases hsplit : splitOption option with
  | none =>
    have hno (key text : String) : ¬Assigns option key text := by
      intro h
      obtain ⟨left, right, hsplit', -⟩ := assigns_iff.1 h
      rw [hsplit] at hsplit'
      cases hsplit'
    refine .skipped ?_ ?_
    · rintro key - n ⟨text, h, -⟩
      exact hno key text h
    · rintro ⟨slot, -, text, h, -⟩
      exact hno slot.1 text h
  | some parts =>
    obtain ⟨left, right⟩ := parts
    have hassigns := assigns_iff.2 ⟨left, right, hsplit, rfl, rfl⟩
    by_cases hkey : Text.trim left ∈ keys
    · cases hread : Decimal.read? bound (Text.trim right) with
      | some n =>
        simp only [List.contains_iff_mem, hkey, if_true, hread]
        refine .sets hkey (hassigns.gives_iff.2 ⟨rfl, hread⟩) ?_
        simp [hassigns.givesNoNumber_iff, hread]
      | none =>
        simp only [List.contains_iff_mem, hkey, if_true, hread]
        refine .ignored ?_ (hassigns.givesNoNumber_iff.2 ⟨hkey, hread⟩)
        simp [hassigns.gives_iff, hread]
    · simp only [List.contains_iff_mem, hkey, if_false]
      refine .skipped ?_ ?_
      · intro key hmem n h
        rw [(hassigns.gives_iff.1 h).1] at hmem
        exact hkey hmem
      · simp [hassigns.givesNoNumber_iff, hkey]

/-- A number for a limit is put in its slot and in no other. -/
theorem slot_set {slot : String × (Limits → Nat)} (hslot : slot ∈ slots) {key : String} (hkey : key ∈ keys)
    (l : Limits) (n : Nat) : slot.2 ((l.set? key n).getD l) = if slot.1 = key then n else slot.2 l := by
  fin_cases hkey <;> fin_cases hslot <;> simp [set?]

variable {l : Limits} {option : String} {options : List String}

theorem applyOption_ignores_iff : (l.applyOption option).2 = true ↔ GivesNoNumber option := by
  have heffect := effect_applyOption l option
  generalize l.applyOption option = result at heffect ⊢
  cases heffect with
  | sets _ _ h => simp [h]
  | ignored _ h => simp [h]
  | skipped _ h => simp [h]

section Slot

variable {slot : String × (Limits → Nat)} (hslot : slot ∈ slots)

include hslot

theorem slot_applyOption_of_gives {n : Nat} (h : Gives option slot.1 n) :
    slot.2 (l.applyOption option).1 = n := by
  have heffect := effect_applyOption l option
  generalize l.applyOption option = result at heffect ⊢
  cases heffect with
  | @sets key m hkey hgives _ =>
    obtain ⟨text, hassigns, -⟩ := id hgives
    have hsame := (hassigns.gives_iff.1 h).1
    subst hsame
    rw [slot_set hslot hkey, if_pos rfl]
    exact hgives.unique h
  | ignored hno _ => exact absurd h (hno slot.1 n)
  | skipped hno _ => exact absurd h (hno slot.1 (keys_eq ▸ List.mem_map_of_mem hslot) n)

theorem slot_applyOption_of_not_gives (h : ∀ n, ¬Gives option slot.1 n) :
    slot.2 (l.applyOption option).1 = slot.2 l := by
  have heffect := effect_applyOption l option
  generalize l.applyOption option = result at heffect ⊢
  cases heffect with
  | @sets key m hkey hgives _ =>
    have hother : slot.1 ≠ key := by
      rintro rfl
      exact h m hgives
    rw [slot_set hslot hkey, if_neg hother]
  | ignored _ _ => rfl
  | skipped _ _ => rfl

end Slot

/-! ### All options -/

variable {key : String} {before after after' : Nat}

/-- What the first option gives stands for what the limit was before the others. -/
theorem settled_cons_of_gives {n : Nat} (h : Gives option key n) :
    Settled (option :: options) key before after ↔ Settled options key n after := by
  constructor
  · rintro (@⟨earlier, later, given, _, hoptions, hgives, hlater⟩ | hno)
    · rcases earlier with _ | ⟨first, earlier⟩
      · rw [List.nil_append, List.cons.injEq] at hoptions
        obtain ⟨rfl, rfl⟩ := hoptions
        rw [hgives.unique h]
        exact .kept hlater
      · rw [List.cons_append, List.cons.injEq] at hoptions
        exact .given hoptions.2 hgives hlater
    · exact absurd h (hno option (.head _) n)
  · rintro (@⟨earlier, later, given, _, rfl, hgives, hlater⟩ | hno)
    · exact .given (List.cons_append ..).symm hgives hlater
    · exact .given (List.nil_append _).symm h hno

theorem settled_cons_of_not_gives (h : ∀ n, ¬Gives option key n) :
    Settled (option :: options) key before after ↔ Settled options key before after := by
  constructor
  · rintro (@⟨earlier, later, given, n, hoptions, hgives, hlater⟩ | hno)
    · rcases earlier with _ | ⟨first, earlier⟩
      · rw [List.nil_append, List.cons.injEq] at hoptions
        exact absurd (hoptions.1 ▸ hgives) (h _)
      · rw [List.cons_append, List.cons.injEq] at hoptions
        exact .given hoptions.2 hgives hlater
    · exact .kept fun o ho => hno o (.tail _ ho)
  · rintro (@⟨earlier, later, given, _, rfl, hgives, hlater⟩ | hno)
    · exact .given (List.cons_append ..).symm hgives hlater
    · exact .kept (List.forall_mem_cons.2 ⟨h, hno⟩)

/-- Options settle a limit in one way. -/
theorem Settled.unique (h : Settled options key before after) (h' : Settled options key before after') :
    after = after' := by
  induction options generalizing before with
  | nil =>
    have hkept {after : Nat} (h : Settled [] key before after) : after = before := by
      cases h with
      | given hoptions => simp at hoptions
      | kept => rfl
    rw [hkept h, hkept h']
  | cons option options ih =>
    by_cases hgives : ∃ n, Gives option key n
    · obtain ⟨n, hn⟩ := hgives
      exact ih ((settled_cons_of_gives hn).1 h) ((settled_cons_of_gives hn).1 h')
    · rw [not_exists] at hgives
      exact ih ((settled_cons_of_not_gives hgives).1 h) ((settled_cons_of_not_gives hgives).1 h')

/-- A limit that options have settled is settled by them as it is. -/
theorem Settled.again (h : Settled options key before after) : Settled options key after after := by
  cases h with
  | given hoptions hgives hlater => exact .given hoptions hgives hlater
  | kept hno => exact .kept hno

theorem settled_applyOptions (l : Limits) (options : List String) {slot : String × (Limits → Nat)}
    (hslot : slot ∈ slots) :
    Settled options slot.1 (slot.2 l) (slot.2 (l.applyOptions options).1) := by
  induction options generalizing l with
  | nil => exact .kept (by simp)
  | cons option options ih =>
    -- the other options settle the limit from what the first has left of it
    have hrest := ih (l.applyOption option).1
    rw [applyOptions]
    by_cases hgives : ∃ n, Gives option slot.1 n
    · obtain ⟨n, hn⟩ := hgives
      rw [slot_applyOption_of_gives hslot hn] at hrest
      exact (settled_cons_of_gives hn).2 hrest
    · rw [not_exists] at hgives
      rw [slot_applyOption_of_not_gives hslot hgives] at hrest
      exact (settled_cons_of_not_gives hgives).2 hrest

instance : DecidablePred GivesNoNumber := fun option =>
  decidable_of_iff (({} : Limits).applyOption option).2 applyOption_ignores_iff

theorem applyOptions_ignored (l : Limits) (options : List String) :
    (l.applyOptions options).2 = options.filter GivesNoNumber := by
  induction options generalizing l with
  | nil => rfl
  | cons option options ih =>
    have hrest := ih (l.applyOption option).1
    rw [applyOptions, List.filter_cons, ← hrest]
    simp [applyOption_ignores_iff]

theorem ext_slots {l l' : Limits} (h : ∀ slot ∈ slots, slot.2 l = slot.2 l') : l = l' := by
  cases l
  cases l'
  simpa [slots] using h

/-- The limits after some options are the only ones that the options settle. -/
theorem eq_applyOptions_iff {l' : Limits} : l' = (l.applyOptions options).1 ↔ Overridden l options l' := by
  constructor
  · rintro rfl slot hslot
    exact settled_applyOptions l options hslot
  · intro h
    apply ext_slots
    intro slot hslot
    exact (h slot hslot).unique (settled_applyOptions l options hslot)

theorem applyOptions_again (l : Limits) (options : List String) :
    (l.applyOptions options).1.applyOptions options = l.applyOptions options := by
  have hlimits : (l.applyOptions options).1 = ((l.applyOptions options).1.applyOptions options).1 :=
    eq_applyOptions_iff.2 fun slot hslot => (settled_applyOptions l options hslot).again
  have hignored := applyOptions_ignored (l.applyOptions options).1 options
  rw [← applyOptions_ignored l] at hignored
  exact Prod.ext hlimits.symm hignored

/-- Each limit is what the last option with its key and a number gives, or what it was before when there is
none. The options that name a limit without a number are listed as they are, in order. Options that are
applied again change nothing. The limits of an admitted bundle are those of its action with the options of
its problem applied in this way. -/
theorem limits_of_options (l : Limits) (options : List String) :
    (∀ l', l' = (l.applyOptions options).1 ↔ Overridden l options l') ∧
    (l.applyOptions options).2 = options.filter GivesNoNumber ∧
    (l.applyOptions options).1.applyOptions options = l.applyOptions options ∧
    ∀ a : Admitted, ∀ l', l' = a.limits ↔ Overridden a.action.limits a.problem.options l' :=
  ⟨fun _ => eq_applyOptions_iff, applyOptions_ignored l options, applyOptions_again l options,
    fun _ _ => eq_applyOptions_iff⟩

/-- A number that cannot be read leaves the one that was given before. -/
example : ({ cpu := 1, threads := 2 } : Limits).applyOptions
    [" maxCPU =+07", "maxCPU=-1", "maxCPU=5=5", "maxcpu=9", "maxThreads= 8	"] =
      ({ cpu := 7, threads := 8 }, ["maxCPU=-1", "maxCPU=5=5"]) := by
  decide

end Limits

end Proctor

import Proctor.Json.Record
import Proctor.Proofs.Base64
import Proctor.Proofs.InstantText
import Proctor.Proofs.JsonText
import Proctor.Proofs.KeyMap
import Proctor.Proofs.NumeralValue

/-!
Reading back written records. A record is written from cells, a key each, and a value where the member
is not left out; the fields of the written object are the values of the cells. Each kind of field has
one law: reading what is written for a value gives the value.

Main statements: `objectFields?_written`, `asMap?_ofMap`, `asFiles?_ofFiles`.
-/

namespace Proctor

namespace Json

variable {α : Type}

/-! ### Members of a record -/

/-- The members of a record that are written, of those that it can have. -/
def written (cells : List (String × Option Json)) : List (String × Json) :=
  cells.filterMap fun (k, v) => v.map (k, ·)

/-- A value that is left out when it is empty. -/
def unlessSkipped (skip : Bool) (value : Json) : Option Json :=
  if skip then none else some value

@[simp] theorem written_nil : written [] = [] := rfl

@[simp] theorem written_cons_some (k : String) (v : Json) (cells : List (String × Option Json)) :
    written ((k, some v) :: cells) = (k, v) :: written cells := rfl

@[simp] theorem written_cons_none (k : String) (cells : List (String × Option Json)) :
    written ((k, none) :: cells) = written cells := rfl

@[simp] theorem written_cons_unlessSkipped (skip : Bool) (k : String) (v : Json)
    (cells : List (String × Option Json)) :
    written ((k, unlessSkipped skip v) :: cells) = memberUnless skip k v ++ written cells := by
  cases skip <;> rfl

theorem written_append (cells cells' : List (String × Option Json)) :
    written (cells ++ cells') = written cells ++ written cells' :=
  List.filterMap_append

theorem mem_written {cells : List (String × Option Json)} {k : String} {v : Json} :
    (k, v) ∈ written cells ↔ (k, some v) ∈ cells := by
  simp only [written, List.mem_filterMap, Option.map_eq_some_iff, Prod.exists, Prod.mk.injEq]
  constructor
  · rintro ⟨k', o, hm, v', rfl, rfl, rfl⟩
    exact hm
  · intro h
    exact ⟨k, some v, h, v, rfl, rfl, rfl⟩

/-- The members with a key that none of the cells has. -/
theorem filter_written_of_not_mem {cells : List (String × Option Json)} {k : String}
    (h : k ∉ cells.map (·.1)) :
    ((written cells).map fun (k, v) => (some k, v)).filter (fun m => m.1 == some k) = [] := by
  rw [List.filter_eq_nil_iff]
  intro m hm
  obtain ⟨⟨k', v⟩, hv, rfl⟩ := List.mem_map.1 hm
  have hne : k' ≠ k := by
    rintro rfl
    exact h (List.mem_map_of_mem (f := (·.1)) (mem_written.1 hv))
  simpa using hne

/-- A key has one member, or none when its cell is empty. -/
theorem filter_written {cells : List (String × Option Json)} (hkeys : (cells.map (·.1)).Nodup)
    {k : String} {v : Option Json} (h : (k, v) ∈ cells) :
    ((written cells).map fun (k, v) => (some k, v)).filter (fun m => m.1 == some k) =
      v.toList.map (some k, ·) := by
  induction cells with
  | nil => cases h
  | cons cell cells ih =>
    obtain ⟨k', v'⟩ := cell
    rw [List.map_cons, List.nodup_cons] at hkeys
    rcases List.mem_cons.1 h with h | h
    · cases h
      have hrest := filter_written_of_not_mem hkeys.1
      cases v with
      | none => exact hrest
      | some v => simp [hrest]
    · have hne : k' ≠ k := by
        rintro rfl
        exact hkeys.1 (List.mem_map_of_mem (f := (·.1)) h)
      have hrest := ih hkeys.2 h
      cases v' with
      | none => exact hrest
      | some v' => simpa [hne] using hrest

theorem member?_written {cells : List (String × Option Json)} (hkeys : (cells.map (·.1)).Nodup)
    {k : String} {v : Option Json} (h : (k, v) ∈ cells) :
    member? ((written cells).map fun (k, v) => (some k, v)) k = some v := by
  rw [member?, filter_written hkeys h]
  cases v <;> rfl

theorem mapM_eq_some {β γ : Type} {f : β → Option γ} {l : List β} {g : β → γ}
    (h : ∀ b ∈ l, f b = some (g b)) : l.mapM f = some (l.map g) := by
  induction l with
  | nil => rfl
  | cons b l ih =>
    rw [List.mapM_cons, h b (.head _), ih fun b hb => h b (.tail _ hb)]
    rfl

/-- The fields of a written object are the values of the cells. -/
theorem objectFields?_written {cells fields : List (String × Option Json)}
    (hkeys : (cells.map (·.1)).Nodup) (hfields : ∀ cell ∈ fields, cell ∈ cells) :
    objectFields? (fields.map (·.1)) (ofPairs (written cells)) = some (fields.map (·.2)) := by
  have hall : ((written cells).map fun (k, v) => (some k, v)).all (·.1.isSome) = true := by
    simp
  rw [ofPairs, objectFields?, if_pos hall, List.mapM_map]
  exact mapM_eq_some fun cell hcell => member?_written hkeys (hfields cell hcell)

theorem fields?_of_cells {names : List String} {cells : List (String × Option Json)} {j : Json}
    (hj : j = ofPairs (written cells)) (hnames : cells.map (·.1) = names) (hnodup : names.Nodup) :
    fields? names j = some (cells.map (·.2)) := by
  rw [hj, ← hnames]
  exact objectFields?_written (hnames ▸ hnodup) fun _ => id

/-! ### Fields -/

@[simp] theorem required_some (read : Json → Option α) (j : Json) : required read (some j) = read j := rfl

@[simp] theorem defaulted_some (default : α) (read : Json → Option α) (j : Json) :
    defaulted default read (some j) = read j := rfl

/-- A value that is left out is the default. -/
theorem defaulted_unlessSkipped {default a : α} {read : Json → Option α} {skip : Bool} {j : Json}
    (hread : read j = some a) (hskip : skip = true → a = default) :
    defaulted default read (unlessSkipped skip j) = some a := by
  cases skip with
  | false => exact hread
  | true => rw [hskip rfl]; rfl

@[simp] theorem asText?_text (s : String) : asText? (.text s) = some s := rfl

@[simp] theorem asBool?_bool (b : Bool) : asBool? (.bool b) = some b := rfl

/-- A text that is left out when it is empty. -/
@[simp] theorem defaulted_text (s : String) :
    defaulted "" asText? (unlessSkipped s.isEmpty (.text s)) = some s :=
  defaulted_unlessSkipped rfl fun h => String.isEmpty_iff.1 h

/-- Integers of 64 bits. -/
def IsInt64 (n : Int) : Prop :=
  -(UInt64.size / 2 : Nat) ≤ n ∧ n < (UInt64.size / 2 : Nat)

instance (n : Int) : Decidable (IsInt64 n) :=
  inferInstanceAs (Decidable (_ ∧ _))

theorem asInteger?_integer {n : Int} (h : IsInt64 n) : asInteger? (integer n) = some n := by
  obtain ⟨hlow, hhigh⟩ := h
  simp only [UInt64.size] at hlow hhigh
  simp only [asInteger?, integer, Numeral.integer?, Numeral.isInteger, List.isEmpty_nil,
    Option.isNone_none, Bool.and_self, if_true, decide_eq_true_eq, UInt64.size]
  split
  · rw [if_pos (by omega)]
    congr 1
    omega
  · rw [if_pos (by omega)]
    congr 1
    omega

theorem asIntegerWithin?_integer {low high n : Int} (h : IsInt64 n) (hbounds : low ≤ n ∧ n ≤ high) :
    asIntegerWithin? low high (integer n) = some n := by
  have hread : Numeral.integer? ⟨n < 0, n.natAbs, [], none⟩ = some n := asInteger?_integer h
  simp only [asIntegerWithin?, integer, Numeral.integerWithin?, hread, if_pos hbounds]

theorem asNatural?_natural {bound n : Nat} (h : n < bound) : asNatural? bound (natural n) = some n := by
  simp [asNatural?, natural, Numeral.natural?, Numeral.isInteger, h]

theorem asInstant?_ofInstant {t : Instant}
    (h : Instant.isInRange (Date.ofDays (t.seconds / 86400)) = true) :
    asInstant? (ofInstant t) = some t :=
  Instant.read?_text h

@[simp] theorem asBytes?_ofBytes (bs : Bytes) : asBytes? (ofBytes bs) = some bs :=
  Base64.decode?_encode bs

/-- A list is read back when its elements are. -/
theorem asList?_map {read : Json → Option α} {write : α → Json} {l : List α}
    (h : ∀ a ∈ l, read (write a) = some a) : asList? read (.array (l.map write)) = some l := by
  have hread : l.mapM (read ∘ write) = some (l.map id) := mapM_eq_some h
  rw [asList?, List.mapM_map, hread, List.map_id]

@[simp] theorem asList?_ofTexts (texts : List String) : asList? asText? (ofTexts texts) = some texts :=
  asList?_map fun _ _ => rfl

/-- Members are read as pairs when their values are. -/
theorem asMap?_ofPairs {β : Type} {read : Json → Option α} {write : β → Json} {f : β → α}
    {pairs : List (String × β)} (h : ∀ p ∈ pairs, read (write p.2) = some (f p.2)) :
    asMap? read (ofPairs (pairs.map fun (k, v) => (k, write v))) =
      some (KeyMap.ofList (pairs.map fun p => (p.1, f p.2))) := by
  have hread : pairs.mapM (fun p : String × β => do
      some ((← some p.1), (← read (write p.2)))) = some (pairs.map fun p => (p.1, f p.2)) := by
    apply mapM_eq_some
    intro p hp
    rw [h p hp]
    rfl
  rw [ofPairs, List.map_map, asMap?, List.mapM_map]
  simp only [Function.comp_def]
  rw [hread]
  rfl

/-- A map is read back when its values are. -/
theorem asMap?_ofMap {read : Json → Option α} {write : α → Json} {m : KeyMap α}
    (h : ∀ p ∈ m.entries, read (write p.2) = some p.2) : asMap? read (ofMap write m) = some m := by
  rw [ofMap, asMap?_ofPairs (f := id) h]
  simp

@[simp] theorem asMap?_bool (m : KeyMap Bool) : asMap? asBool? (ofMap .bool m) = some m :=
  asMap?_ofMap fun _ _ => rfl

@[simp] theorem asFiles?_ofFiles (files : KeyMap Bytes) : asFiles? (ofFiles files) = some files := by
  obtain ⟨texts, htexts⟩ : ∃ texts : KeyMap String,
      texts.entries = files.entries.map fun p => (p.1, Base64.encode p.2) :=
    ⟨⟨_, List.pairwise_map.2 files.sorted⟩, rfl⟩
  have hread : asMap? asText? (ofFiles files) = some texts := by
    rw [ofFiles, ofMap, asMap?_ofPairs fun p _ => asText?_text (Base64.encode p.2), ← htexts,
      KeyMap.ofList_entries]
  have hdecode : texts.entries.mapM (fun p : String × String => do
      some (p.1, (← Base64.decode? p.2))) = some files.entries := by
    rw [htexts, List.mapM_map, mapM_eq_some (g := id) fun p _ => by simp, List.map_id]
  have hfiles : asFiles? (ofFiles files) = (asMap? asText? (ofFiles files)).bind fun texts =>
      (texts.entries.mapM fun p : String × String => do
        some (p.1, (← Base64.decode? p.2))).bind fun files => some (KeyMap.ofList files) := rfl
  rw [hfiles, hread, Option.bind_some, hdecode, Option.bind_some, KeyMap.ofList_entries]

/-- Files that are left out when there are none. -/
@[simp] theorem defaulted_files (files : KeyMap Bytes) :
    defaulted .empty asFiles? (unlessSkipped files.isEmpty (ofFiles files)) = some files := by
  apply defaulted_unlessSkipped (asFiles?_ofFiles files)
  intro h
  exact KeyMap.ext_entries (List.isEmpty_iff.1 h)

/-- A list that is left out when it is empty. -/
theorem defaulted_list {read : Json → Option α} {write : α → Json} {l : List α}
    (h : ∀ a ∈ l, read (write a) = some a) :
    defaulted [] (asList? read) (unlessSkipped l.isEmpty (.array (l.map write))) = some l :=
  defaulted_unlessSkipped (asList?_map h) fun hempty => List.isEmpty_iff.1 hempty

/-- What is not null is read as itself. -/
theorem asNullable?_of_ne_null {read : Json → Option α} {j : Json} {a : α} (hne : j ≠ .null)
    (hread : read j = some a) : asNullable? read j = some (some a) := by
  have h : asNullable? read j = (read j).map some := by
    cases j with
    | null => exact absurd rfl hne
    | _ => rfl
  rw [h, hread, Option.map_some]

/-- A value that is null when it is missing. -/
theorem asNullable?_getD_null {read : Json → Option α} {write : α → Json} {o : Option α}
    (hne : ∀ a ∈ o, write a ≠ .null) (hread : ∀ a ∈ o, read (write a) = some a) :
    asNullable? read ((o.map write).getD .null) = some o := by
  cases o with
  | none => rfl
  | some a => exact asNullable?_of_ne_null (hne a rfl) (hread a rfl)

/-- A value that is left out when it is missing. -/
theorem defaulted_map {read : Json → Option α} {write : α → Json} {o : Option α}
    (hne : ∀ a ∈ o, write a ≠ .null) (hread : ∀ a ∈ o, read (write a) = some a) :
    defaulted none (asNullable? read) (o.map write) = some o := by
  cases o with
  | none => rfl
  | some a => exact asNullable?_of_ne_null (hne a rfl) (hread a rfl)

theorem ofPairs_ne_null (pairs : List (String × Json)) : ofPairs pairs ≠ .null := by
  simp [ofPairs]

/-! ### Values that can be written -/

attribute [simp] Writable.null Writable.bool Writable.text

@[simp] theorem writable_integer (n : Int) : Writable (integer n) :=
  .number fun _ h => by cases h

@[simp] theorem writable_natural (n : Nat) : Writable (natural n) :=
  .number fun _ h => by cases h

@[simp] theorem writable_ofBinary64 (x : Binary64) : Writable (ofBinary64 x) :=
  .number (Numeral.places_ofBinary64 x)

@[simp] theorem writable_ofInstant (t : Instant) : Writable (ofInstant t) :=
  .text t.text

theorem writable_map {l : List α} {write : α → Json} (h : ∀ a ∈ l, Writable (write a)) :
    Writable (.array (l.map write)) := by
  apply Writable.array
  intro j hj
  obtain ⟨a, ha, rfl⟩ := List.mem_map.1 hj
  exact h a ha

@[simp] theorem writable_ofTexts (texts : List String) : Writable (ofTexts texts) :=
  writable_map fun s _ => .text s

theorem writable_ofPairs {pairs : List (String × Json)} (h : ∀ p ∈ pairs, Writable p.2) :
    Writable (ofPairs pairs) := by
  apply Writable.object
  · intro m hm
    obtain ⟨p, -, rfl⟩ := List.mem_map.1 hm
    rfl
  · intro m hm
    obtain ⟨p, hp, rfl⟩ := List.mem_map.1 hm
    exact h p hp

theorem writable_ofMap {m : KeyMap α} {write : α → Json}
    (h : ∀ p ∈ m.entries, Writable (write p.2)) : Writable (ofMap write m) := by
  apply writable_ofPairs
  intro q hq
  obtain ⟨p, hp, rfl⟩ := List.mem_map.1 hq
  exact h p hp

@[simp] theorem writable_ofMap_bool (m : KeyMap Bool) : Writable (ofMap .bool m) :=
  writable_ofMap fun p _ => .bool p.2

@[simp] theorem writable_ofFiles (files : KeyMap Bytes) : Writable (ofFiles files) :=
  writable_ofMap fun p _ => .text (Base64.encode p.2)

@[simp] theorem writable_unlessSkipped {skip : Bool} {j : Json} :
    (∀ v, unlessSkipped skip j = some v → Writable v) ↔ (skip = false → Writable j) := by
  cases skip <;> simp [unlessSkipped]

/-- A record can be written when the values of its cells can. -/
theorem writable_written {cells : List (String × Option Json)}
    (h : ∀ cell ∈ cells, ∀ v ∈ cell.2, Writable v) : Writable (ofPairs (written cells)) := by
  apply writable_ofPairs
  intro p hp
  obtain ⟨k, v⟩ := p
  exact h (k, some v) (mem_written.1 hp) v rfl

/-! ### Values that can be kept -/

theorem isKeepable_natural (depth : Nat) {n : Nat} (h : n < UInt64.size) :
    isKeepable depth (natural n) = true :=
  Numeral.binary64?_isSome_of_whole rfl rfl h

theorem isKeepable_integer (depth : Nat) {n : Int} (h : IsInt64 n) :
    isKeepable depth (integer n) = true := by
  apply Numeral.binary64?_isSome_of_whole rfl rfl
  obtain ⟨hlow, hhigh⟩ := h
  simp only [UInt64.size] at *
  omega

theorem areItemsKeepable_of_forall {depth : Nat} {items : List Json}
    (h : ∀ item ∈ items, isKeepable depth item = true) : areItemsKeepable depth items = true := by
  induction items with
  | nil => rfl
  | cons item items ih =>
    rw [areItemsKeepable, h item (.head _), ih fun item hm => h item (.tail _ hm)]
    rfl

theorem areMembersKeepable_of_forall {depth : Nat} {members : List (Option String × Json)}
    (h : ∀ m ∈ members, m.1.isSome = true ∧ isKeepable depth m.2 = true) :
    areMembersKeepable depth members = true := by
  induction members with
  | nil => rfl
  | cons m members ih =>
    obtain ⟨key, value⟩ := m
    obtain ⟨hkey, hvalue⟩ := h _ (.head _)
    rw [areMembersKeepable, hkey, hvalue, ih fun m hm => h m (.tail _ hm)]
    rfl

theorem isKeepable_ofTexts {depth : Nat} (h : depth < 127) (texts : List String) :
    isKeepable depth (ofTexts texts) = true := by
  have hitems : areItemsKeepable (depth + 1) (texts.map .text) = true := by
    apply areItemsKeepable_of_forall
    intro item hitem
    obtain ⟨s, -, rfl⟩ := List.mem_map.1 hitem
    rfl
  simp [ofTexts, isKeepable, h, hitems]

theorem isKeepable_ofFiles {depth : Nat} (h : depth < 127) (files : KeyMap Bytes) :
    isKeepable depth (ofFiles files) = true := by
  have hmembers : areMembersKeepable (depth + 1)
      ((files.entries.map fun (k, v) => (k, ofBytes v)).map fun (k, v) => (some k, v)) = true := by
    apply areMembersKeepable_of_forall
    intro m hm
    obtain ⟨q, hq, rfl⟩ := List.mem_map.1 hm
    obtain ⟨p, -, rfl⟩ := List.mem_map.1 hq
    exact ⟨rfl, rfl⟩
  rw [ofFiles, ofMap, ofPairs, isKeepable, hmembers, decide_eq_true h]
  rfl

/-- A written record is kept when the values of the members that its reader does not know are. -/
theorem areOthersKeepable_written {depth : Nat} {keys : List String}
    {cells : List (String × Option Json)}
    (h : ∀ cell ∈ cells, cell.1 ∉ keys → ∀ v ∈ cell.2, isKeepable depth v = true) :
    areOthersKeepable depth keys (ofPairs (written cells)) = true := by
  rw [ofPairs, areOthersKeepable]
  apply areMembersKeepable_of_forall
  intro m hm
  obtain ⟨hm, hkey⟩ := List.mem_filter.1 hm
  obtain ⟨⟨k, v⟩, hv, rfl⟩ := List.mem_map.1 hm
  have hnot : k ∉ keys := fun hmem => by
    simp only [Bool.not_eq_true', List.any_eq_false, beq_iff_eq, Option.some.injEq] at hkey
    exact hkey k hmem rfl
  exact ⟨rfl, h (k, some v) (mem_written.1 hv) hnot v rfl⟩

end Json

end Proctor

/-!
Finite maps with text keys, kept in the order of the keys' code points. Two maps with the same
entries are equal, because the entries are strictly sorted.
-/

namespace Proctor

structure KeyMap (α : Type) where
  entries : List (String × α)
  sorted : entries.Pairwise (·.1 < ·.1)
  deriving DecidableEq

namespace KeyMap

variable {α β : Type}

instance [Repr α] : Repr (KeyMap α) := ⟨fun m n => reprPrec m.entries n⟩

def empty : KeyMap α := ⟨[], .nil⟩

instance : EmptyCollection (KeyMap α) := ⟨empty⟩
instance : Inhabited (KeyMap α) := ⟨empty⟩

/-- Puts a pair into sorted pairs, in the place of a pair with the same key. -/
def insertPair (k : String) (v : α) : List (String × α) → List (String × α)
  | [] => [(k, v)]
  | (k', v') :: rest =>
    if k < k' then (k, v) :: (k', v') :: rest
    else if k = k' then (k, v) :: rest
    else (k', v') :: insertPair k v rest

theorem mem_insertPair {k : String} {v : α} {l : List (String × α)} {p : String × α}
    (h : p ∈ insertPair k v l) : p = (k, v) ∨ p ∈ l := by
  induction l with
  | nil => simpa [insertPair] using h
  | cons q rest ih =>
    unfold insertPair at h
    split at h
    · simpa using h
    · split at h
      · rcases List.mem_cons.1 h with h | h
        · exact .inl h
        · exact .inr (.tail _ h)
      · rcases List.mem_cons.1 h with h | h
        · exact .inr (h ▸ .head _)
        · exact (ih h).imp_right (.tail _)

theorem insertPair_sorted (k : String) (v : α) {l : List (String × α)}
    (h : l.Pairwise (·.1 < ·.1)) : (insertPair k v l).Pairwise (·.1 < ·.1) := by
  induction l with
  | nil => simp [insertPair]
  | cons q rest ih =>
    have hq := List.pairwise_cons.1 h
    unfold insertPair
    split
    · rename_i hlt
      refine List.pairwise_cons.2 ⟨fun p hp => ?_, h⟩
      rcases List.mem_cons.1 hp with hp | hp
      · exact hp ▸ hlt
      · exact String.lt_trans hlt (hq.1 p hp)
    · split
      · rename_i heq
        exact List.pairwise_cons.2 ⟨fun p hp => heq ▸ hq.1 p hp, hq.2⟩
      · rename_i hlt hne
        refine List.pairwise_cons.2 ⟨fun p hp => ?_, ih hq.2⟩
        rcases mem_insertPair hp with hp | hp
        · subst hp
          exact Decidable.byContradiction fun hge =>
            hne (String.le_antisymm (String.not_lt.1 hge) (String.not_lt.1 hlt))
        · exact hq.1 p hp

def insert (m : KeyMap α) (k : String) (v : α) : KeyMap α :=
  ⟨insertPair k v m.entries, insertPair_sorted k v m.sorted⟩

def find? (m : KeyMap α) (k : String) : Option α :=
  m.entries.lookup k

def contains (m : KeyMap α) (k : String) : Bool :=
  (m.find? k).isSome

def erase (m : KeyMap α) (k : String) : KeyMap α :=
  ⟨m.entries.filter (·.1 != k), m.sorted.filter _⟩

def filter (keep : String → α → Bool) (m : KeyMap α) : KeyMap α :=
  ⟨m.entries.filter fun p => keep p.1 p.2, m.sorted.filter _⟩

/-- The last of several pairs with one key stands. -/
def ofList (l : List (String × α)) : KeyMap α :=
  l.foldl (fun m p => m.insert p.1 p.2) empty

/-- Entries of `n` stand before those of `m`. -/
def union (m n : KeyMap α) : KeyMap α :=
  n.entries.foldl (fun m p => m.insert p.1 p.2) m

def keys (m : KeyMap α) : List String :=
  m.entries.map (·.1)

def values (m : KeyMap α) : List α :=
  m.entries.map (·.2)

def isEmpty (m : KeyMap α) : Bool :=
  m.entries.isEmpty

def size (m : KeyMap α) : Nat :=
  m.entries.length

end KeyMap

end Proctor

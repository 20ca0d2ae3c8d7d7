import Mathlib.Order.Lattice
import Mathlib.Data.List.Nodup
import Mathlib.Data.List.Pairwise

/-!
# Finite maps as key-sorted association lists

The entries are strictly sorted by key, so a key occurs at most once, iteration
is in key order, and two maps with the same lookups are equal.
-/

namespace ForgeFlow.Base

structure KeyMap (K V : Type) [LinearOrder K] where
  entries : List (K × V)
  sorted : entries.Pairwise fun a b => a.1 < b.1

namespace KeyMap

variable {K V W : Type} [LinearOrder K]

def find (k : K) : List (K × V) → Option V
  | [] => none
  | (k', v) :: rest => if k = k' then some v else find k rest

/-- Insert into a sorted list, replacing the value of a key that is there. -/
def put (k : K) (v : V) : List (K × V) → List (K × V)
  | [] => [(k, v)]
  | (k', v') :: rest =>
    if k < k' then (k, v) :: (k', v') :: rest
    else if k = k' then (k, v) :: rest
    else (k', v') :: put k v rest

theorem mem_put {k : K} {v : V} {e : K × V} :
    ∀ {l : List (K × V)}, e ∈ put k v l → e = (k, v) ∨ e ∈ l
  | [], h => by simpa [put] using h
  | (k', v') :: rest, h => by
    simp only [put] at h
    split at h
    · simpa using h
    · split at h
      · simp only [List.mem_cons] at h ⊢
        tauto
      · simp only [List.mem_cons] at h ⊢
        rcases h with h | h
        · tauto
        · have := mem_put h
          tauto

theorem put_sorted (k : K) (v : V) :
    ∀ {l : List (K × V)}, l.Pairwise (fun a b => a.1 < b.1) →
      (put k v l).Pairwise fun a b => a.1 < b.1
  | [], _ => by simp [put]
  | (k', v') :: rest, h => by
    obtain ⟨hhead, hrest⟩ := List.pairwise_cons.mp h
    simp only [put]
    split
    · rename_i hlt
      refine List.pairwise_cons.mpr ⟨?_, h⟩
      intro e he
      rcases List.mem_cons.mp he with rfl | he
      · exact hlt
      · exact hlt.trans (hhead e he)
    · split
      · rename_i heq
        subst heq
        exact List.pairwise_cons.mpr ⟨hhead, hrest⟩
      · rename_i hlt hne
        refine List.pairwise_cons.mpr ⟨?_, put_sorted k v hrest⟩
        intro e he
        rcases mem_put he with rfl | he
        · exact lt_of_le_of_ne (not_lt.mp hlt) (Ne.symm hne)
        · exact hhead e he

def empty : KeyMap K V := ⟨[], List.Pairwise.nil⟩

instance : EmptyCollection (KeyMap K V) := ⟨empty⟩

def get? (m : KeyMap K V) (k : K) : Option V := find k m.entries

def contains (m : KeyMap K V) (k : K) : Bool := (m.get? k).isSome

def insert (m : KeyMap K V) (k : K) (v : V) : KeyMap K V :=
  ⟨put k v m.entries, put_sorted k v m.sorted⟩

def erase (m : KeyMap K V) (k : K) : KeyMap K V :=
  ⟨m.entries.filter fun e => e.1 ≠ k, m.sorted.filter _⟩

def filter (p : K → V → Bool) (m : KeyMap K V) : KeyMap K V :=
  ⟨m.entries.filter fun e => p e.1 e.2, m.sorted.filter _⟩

def map (f : K → V → W) (m : KeyMap K V) : KeyMap K W :=
  ⟨m.entries.map fun e => (e.1, f e.1 e.2), List.pairwise_map.mpr m.sorted⟩

def keys (m : KeyMap K V) : List K := m.entries.map Prod.fst

def values (m : KeyMap K V) : List V := m.entries.map Prod.snd

def size (m : KeyMap K V) : Nat := m.entries.length

def ofList (l : List (K × V)) : KeyMap K V := l.foldl (fun m e => m.insert e.1 e.2) empty

@[ext] theorem ext_entries {m n : KeyMap K V} (h : m.entries = n.entries) : m = n := by
  cases m
  cases n
  simpa using h

instance [DecidableEq V] : DecidableEq (KeyMap K V) := fun m n =>
  decidable_of_iff (m.entries = n.entries) ⟨ext_entries, fun h => h ▸ rfl⟩

@[simp] theorem get?_empty (k : K) : (∅ : KeyMap K V).get? k = none := rfl

theorem find_put (k k' : K) (v : V) :
    ∀ {l : List (K × V)}, l.Pairwise (fun a b => a.1 < b.1) →
      find k' (put k v l) = if k' = k then some v else find k' l
  | [], _ => by simp [put, find]
  | (k₀, v₀) :: rest, h => by
    obtain ⟨hhead, hrest⟩ := List.pairwise_cons.mp h
    simp only [put]
    split
    · simp [find]
    · split
      · rename_i heq
        subst heq
        simp only [find]
        split <;> rfl
      · rename_i hne
        simp only [find, find_put k k' v hrest]
        by_cases h0 : k' = k₀
        · have hk : k' ≠ k := fun hk => hne (hk ▸ h0)
          simp [h0, h0 ▸ hk]
        · simp [h0]

theorem get?_insert (m : KeyMap K V) (k k' : K) (v : V) [Decidable (k' = k)] :
    (m.insert k v).get? k' = if k' = k then some v else m.get? k' := by
  simp only [get?, insert, find_put k k' v m.sorted]
  split <;> rfl

@[simp] theorem get?_insert_self (m : KeyMap K V) (k : K) (v : V) :
    (m.insert k v).get? k = some v := by
  simp [get?_insert]

theorem get?_insert_cases {m : KeyMap K V} {k k' : K} {v v' : V}
    (h : (m.insert k v).get? k' = some v') : k' = k ∧ v' = v ∨ k' ≠ k ∧ m.get? k' = some v' := by
  rw [get?_insert] at h
  split at h
  · rename_i hk
    exact .inl ⟨hk, (Option.some.inj h).symm⟩
  · rename_i hk
    exact .inr ⟨hk, h⟩

theorem contains_insert (m : KeyMap K V) (k k' : K) (v : V) :
    (m.insert k v).contains k' = true ↔ k' = k ∨ m.contains k' = true := by
  simp only [contains, get?_insert]
  by_cases h : k' = k <;> simp [h]

theorem contains_of_get? {m : KeyMap K V} {k : K} {v : V} (h : m.get? k = some v) :
    m.contains k = true := by
  rw [contains, h]
  rfl

theorem exists_of_contains {m : KeyMap K V} {k : K} (h : m.contains k = true) :
    ∃ v, m.get? k = some v := Option.isSome_iff_exists.mp h

theorem get?_insert_ne (m : KeyMap K V) {k k' : K} (v : V) (h : k' ≠ k) :
    (m.insert k v).get? k' = m.get? k' := by
  simp [get?_insert, h]

theorem find_filter (k k' : K) :
    ∀ l : List (K × V), find k' (l.filter fun e => e.1 ≠ k) =
      if k' = k then none else find k' l
  | [] => by simp [find]
  | (k₀, v₀) :: rest => by
    by_cases h0 : k₀ = k
    · subst h0
      rw [List.filter_cons_of_neg (by simp), find_filter k₀ k' rest, find]
      split <;> rfl
    · rw [List.filter_cons_of_pos (by simpa using h0), find, find_filter k k' rest, find]
      by_cases hk : k' = k₀
      · subst hk
        simp [h0]
      · simp [hk]

theorem get?_erase (m : KeyMap K V) (k k' : K) [Decidable (k' = k)] :
    (m.erase k).get? k' = if k' = k then none else m.get? k' := by
  simp only [get?, erase, find_filter k k' m.entries]
  split <;> rfl

theorem get?_of_erase {m : KeyMap K V} {k k' : K} {v : V} (h : (m.erase k).get? k' = some v) :
    m.get? k' = some v := by
  rw [get?_erase] at h
  split at h
  · cases h
  · exact h

theorem contains_erase (m : KeyMap K V) (k k' : K) :
    (m.erase k).contains k' = true ↔ k' ≠ k ∧ m.contains k' = true := by
  simp only [contains, get?_erase]
  by_cases h : k' = k <;> simp [h]

/-- A map of size zero has no keys. -/
theorem not_contains_of_size {m : KeyMap K V} (h : m.size = 0) (k : K) : ¬m.contains k = true := by
  have hnil : m.entries = [] := List.length_eq_zero_iff.mp h
  simp [contains, get?, hnil, find]

theorem find_map (f : K → V → W) (k : K) :
    ∀ l : List (K × V), find k (l.map fun e => (e.1, f e.1 e.2)) = (find k l).map (f k)
  | [] => rfl
  | (k₀, v₀) :: rest => by
    simp only [List.map_cons, find]
    split
    · rename_i h
      simp [h]
    · exact find_map f k rest

@[simp] theorem get?_map (f : K → V → W) (m : KeyMap K V) (k : K) :
    (m.map f).get? k = (m.get? k).map (f k) :=
  find_map f k m.entries

theorem contains_map (f : K → V → W) (m : KeyMap K V) (k : K) :
    (m.map f).contains k = m.contains k := by
  simp [contains]

theorem mem_of_find {k : K} {v : V} : ∀ {l : List (K × V)}, find k l = some v → (k, v) ∈ l
  | (k₀, v₀) :: rest, h => by
    simp only [find] at h
    split at h
    · rename_i hk
      cases h
      simp [hk]
    · exact List.mem_cons_of_mem _ (mem_of_find h)

theorem find_of_mem {k : K} {v : V} :
    ∀ {l : List (K × V)}, (l.map Prod.fst).Nodup → (k, v) ∈ l → find k l = some v
  | (k₀, v₀) :: rest, hs, h => by
    rw [List.map_cons] at hs
    obtain ⟨hhead, hrest⟩ := List.nodup_cons.mp hs
    rcases List.mem_cons.mp h with he | he
    · cases he
      simp [find]
    · have hne : k ≠ k₀ := by
        rintro rfl
        exact hhead (List.mem_map.mpr ⟨_, he, rfl⟩)
      simp only [find, if_neg hne]
      exact find_of_mem hrest he

theorem keys_sorted (m : KeyMap K V) : m.keys.Pairwise (· < ·) :=
  List.pairwise_map.mpr m.sorted

theorem keys_nodup (m : KeyMap K V) : m.keys.Nodup :=
  m.keys_sorted.imp fun h => h.ne

theorem mem_entries_iff (m : KeyMap K V) (k : K) (v : V) :
    (k, v) ∈ m.entries ↔ m.get? k = some v :=
  ⟨find_of_mem m.keys_nodup, mem_of_find⟩

theorem get?_filter (p : K → V → Bool) (m : KeyMap K V) (k : K) :
    (m.filter p).get? k = (m.get? k).filter (p k) := by
  ext v
  rw [← mem_entries_iff, Option.filter_eq_some_iff, ← mem_entries_iff, filter, List.mem_filter]

theorem mem_keys_iff (m : KeyMap K V) (k : K) : k ∈ m.keys ↔ (m.get? k).isSome := by
  constructor
  · intro h
    obtain ⟨⟨k', v⟩, he, rfl⟩ := List.mem_map.mp h
    rw [(mem_entries_iff m k' v).mp he]
    rfl
  · intro h
    obtain ⟨v, hv⟩ := Option.isSome_iff_exists.mp h
    exact List.mem_map.mpr ⟨(k, v), (mem_entries_iff m k v).mpr hv, rfl⟩

theorem mem_values_iff (m : KeyMap K V) (v : V) : v ∈ m.values ↔ ∃ k, m.get? k = some v := by
  constructor
  · intro h
    obtain ⟨⟨k, v'⟩, he, rfl⟩ := List.mem_map.mp h
    exact ⟨k, (mem_entries_iff m k v').mp he⟩
  · rintro ⟨k, hk⟩
    exact List.mem_map.mpr ⟨(k, v), (mem_entries_iff m k v).mpr hk, rfl⟩

/-- Sorted lists with the same elements are equal. -/
theorem entries_eq_of_mem_iff :
    ∀ {l l' : List (K × V)}, l.Pairwise (fun a b => a.1 < b.1) →
      l'.Pairwise (fun a b => a.1 < b.1) → (∀ e, e ∈ l ↔ e ∈ l') → l = l'
  | [], [], _, _, _ => rfl
  | [], e :: _, _, _, h => absurd ((h e).mpr (by simp)) (by simp)
  | e :: _, [], _, _, h => absurd ((h e).mp (by simp)) (by simp)
  | e :: l, e' :: l', hs, hs', h => by
    obtain ⟨hhead, hrest⟩ := List.pairwise_cons.mp hs
    obtain ⟨hhead', hrest'⟩ := List.pairwise_cons.mp hs'
    -- The heads agree: each is the least element of the other list.
    have he : e = e' := by
      rcases List.mem_cons.mp ((h e).mp (by simp)) with he | he
      · exact he
      rcases List.mem_cons.mp ((h e').mpr (by simp)) with he' | he'
      · exact he'.symm
      exact absurd (hhead _ he') (hhead' _ he).asymm
    subst he
    have hmem : ∀ x, x ∈ l ↔ x ∈ l' := by
      intro x
      constructor
      · intro hx
        rcases List.mem_cons.mp ((h x).mp (List.mem_cons_of_mem _ hx)) with rfl | hx'
        · exact absurd (hhead _ hx) (lt_irrefl _)
        · exact hx'
      · intro hx
        rcases List.mem_cons.mp ((h x).mpr (List.mem_cons_of_mem _ hx)) with rfl | hx'
        · exact absurd (hhead' _ hx) (lt_irrefl _)
        · exact hx'
    rw [entries_eq_of_mem_iff hrest hrest' hmem]

/-- Maps are determined by their lookups. -/
theorem ext_get? {m n : KeyMap K V} (h : ∀ k, m.get? k = n.get? k) : m = n := by
  apply ext_entries
  apply entries_eq_of_mem_iff m.sorted n.sorted
  rintro ⟨k, v⟩
  rw [mem_entries_iff, mem_entries_iff, h k]

/-- A map to the unit type is the set of its keys. -/
theorem ext_contains {m n : KeyMap K Unit} (h : ∀ k, m.contains k = true ↔ n.contains k = true) :
    m = n := by
  refine ext_get? fun k => ?_
  have hk := h k
  unfold contains at hk
  cases hm : m.get? k <;> cases hn : n.get? k <;> simp_all

theorem map_eq_self {f : K → V → V} {m : KeyMap K V}
    (h : ∀ k v, m.get? k = some v → f k v = v) : m.map f = m := by
  refine ext_get? fun k => ?_
  rw [get?_map]
  cases hv : m.get? k with
  | none => rfl
  | some v => rw [Option.map_some, h k v hv]

theorem map_insert (f : K → V → W) (m : KeyMap K V) (k : K) (v : V) :
    (m.insert k v).map f = (m.map f).insert k (f k v) := by
  apply ext_get?
  intro k'
  rw [get?_map, get?_insert, get?_insert, get?_map]
  split
  · rename_i h
    simp [h]
  · rfl

theorem map_foldl_insert (f : K → V → W) : ∀ (l : List (K × V)) (m : KeyMap K V),
    (l.foldl (fun m e => m.insert e.1 e.2) m).map f =
      (l.map fun e => (e.1, f e.1 e.2)).foldl (fun m e => m.insert e.1 e.2) (m.map f)
  | [], _ => rfl
  | e :: rest, m => by
    rw [List.foldl_cons, map_foldl_insert f rest, map_insert]
    rfl

theorem map_ofList (f : K → V → W) (l : List (K × V)) :
    (ofList l).map f = ofList (l.map fun e => (e.1, f e.1 e.2)) := map_foldl_insert f l ∅

theorem foldl_insert_get? (k : K) :
    ∀ (l : List (K × V)) (m : KeyMap K V), (l.map Prod.fst).Nodup →
      (l.foldl (fun m e => m.insert e.1 e.2) m).get? k =
        if k ∈ l.map Prod.fst then find k l else m.get? k
  | [], m, _ => by simp
  | (k₀, v₀) :: rest, m, h => by
    rw [List.map_cons] at h
    obtain ⟨hnot, hrest⟩ := List.nodup_cons.mp h
    rw [List.foldl_cons, foldl_insert_get? k rest _ hrest, get?_insert]
    by_cases hk : k = k₀
    · subst hk
      rw [if_neg hnot]
      simp [find]
    · simp only [List.map_cons, List.mem_cons, hk, false_or, find, if_false]

theorem get?_ofList {l : List (K × V)} (h : (l.map Prod.fst).Nodup) (k : K) :
    (ofList l).get? k = find k l := by
  rw [ofList, foldl_insert_get? k l empty h]
  split
  · rfl
  · rename_i hk
    cases hf : find k l with
    | none => rfl
    | some v => exact absurd (List.mem_map.mpr ⟨_, mem_of_find hf, rfl⟩) hk

theorem get?_ofList_iff {l : List (K × V)} (h : (l.map Prod.fst).Nodup) (k : K) (v : V) :
    (ofList l).get? k = some v ↔ (k, v) ∈ l := by
  rw [get?_ofList h]
  exact ⟨mem_of_find, find_of_mem h⟩

theorem mem_of_get?_foldl {k : K} {v : V} :
    ∀ {l : List (K × V)} {m : KeyMap K V},
      (l.foldl (fun m e => m.insert e.1 e.2) m).get? k = some v → (k, v) ∈ l ∨ m.get? k = some v
  | [], _, h => .inr h
  | (k₀, v₀) :: rest, m, h => by
    rw [List.foldl_cons] at h
    rcases mem_of_get?_foldl h with hmem | hget
    · exact .inl (List.mem_cons_of_mem _ hmem)
    · rw [get?_insert] at hget
      split at hget
      · rename_i hk
        cases hget
        rw [hk]
        exact .inl List.mem_cons_self
      · exact .inr hget

theorem mem_of_get?_ofList {l : List (K × V)} {k : K} {v : V} (h : (ofList l).get? k = some v) :
    (k, v) ∈ l :=
  (mem_of_get?_foldl h).resolve_right nofun

theorem contains_foldl {k : K} : ∀ (l : List (K × V)) (m : KeyMap K V),
    (l.foldl (fun m e => m.insert e.1 e.2) m).contains k = true ↔
      k ∈ l.map Prod.fst ∨ m.contains k = true
  | [], m => by simp
  | (k₀, v₀) :: rest, m => by
    rw [List.foldl_cons, contains_foldl rest, contains_insert, List.map_cons, List.mem_cons]
    tauto

theorem contains_ofList (l : List (K × V)) (k : K) :
    (ofList l).contains k = true ↔ k ∈ l.map Prod.fst := by
  rw [ofList, contains_foldl]
  exact or_iff_left nofun

/-- Rebuilding a map from its own entries gives it back. -/
theorem ofList_entries (m : KeyMap K V) : ofList m.entries = m :=
  ext_get? fun k => get?_ofList m.keys_nodup k

/-- If some but not exactly one value passes a test, one under a key other than
any given one does. -/
theorem exists_ne_of_countP_ne_one {m : KeyMap K V} {p : V → Bool} {k : K} {v : V}
    (hk : m.get? k = some v) (hv : p v = true) (hcount : m.values.countP p ≠ 1) (k₀ : K) :
    ∃ k' v', k' ≠ k₀ ∧ m.get? k' = some v' ∧ p v' = true := by
  by_contra hnone
  push Not at hnone
  apply hcount
  have hlength : m.values.countP p = (m.entries.filter fun e => p e.2).length := by
    rw [values, List.countP_map, List.countP_eq_length_filter]
    rfl
  have hkeys : ((m.entries.filter fun e => p e.2).map Prod.fst).Nodup :=
    (List.filter_sublist.map Prod.fst).nodup m.keys_nodup
  have hall : ∀ e ∈ m.entries.filter fun e => p e.2, e.1 = k₀ := by
    rintro ⟨k', v'⟩ he
    obtain ⟨hmem, hp⟩ := List.mem_filter.mp he
    by_contra hne
    exact hnone k' v' hne ((mem_entries_iff m k' v').mp hmem) hp
  have hsome : (k, v) ∈ m.entries.filter fun e => p e.2 :=
    List.mem_filter.mpr ⟨(mem_entries_iff m k v).mpr hk, hv⟩
  rw [hlength]
  generalize m.entries.filter (fun e => p e.2) = l at hkeys hall hsome
  -- two entries that pass would share the key
  match l, hkeys, hall, hsome with
  | [_], _, _, _ => rfl
  | a :: b :: _, hkeys, hall, _ =>
    have ha := hall a (by simp)
    have hb := hall b (by simp)
    simp [ha, hb] at hkeys

theorem map_entries (f : K → V → W) (m : KeyMap K V) :
    (m.map f).entries = m.entries.map fun e => (e.1, f e.1 e.2) := rfl

theorem values_map (f : V → W) (m : KeyMap K V) :
    (m.map fun _ v => f v).values = m.values.map f := by
  simp [values, map_entries, Function.comp_def]

/-- The values of a list without duplicate keys, in the order of the keys. -/
theorem values_ofList_perm {l : List (K × V)} (h : (l.map Prod.fst).Nodup) :
    (ofList l).values.Perm (l.map Prod.snd) := by
  have hentries : (ofList l).entries.Perm l := by
    refine (List.perm_ext_iff_of_nodup (ofList l).keys_nodup.of_map h.of_map).mpr ?_
    rintro ⟨k, v⟩
    rw [mem_entries_iff, get?_ofList_iff h]
  exact hentries.map Prod.snd

/-- Writing the values of a map, those that write anything, under their keys. -/
theorem get?_foldl_values {key : V → K} (val : V → Option W) (m : KeyMap K V)
    (hkey : ∀ k v, m.get? k = some v → key v = k) (rows : KeyMap K W) (k : K) :
    (m.values.foldl (fun r v => ((val v).map (r.insert (key v))).getD r) rows).get? k =
      ((m.get? k).bind val).or (rows.get? k) := by
  have hwrite : ∀ (l : List (K × V)), (l.map Prod.fst).Nodup → (∀ e ∈ l, key e.2 = e.1) →
      ∀ rows : KeyMap K W, ((l.map Prod.snd).foldl
        (fun r v => ((val v).map (r.insert (key v))).getD r) rows).get? k =
          ((find k l).bind val).or (rows.get? k) := by
    intro l
    induction l with
    | nil => intros; rfl
    | cons e rest ih =>
      obtain ⟨k₀, v₀⟩ := e
      intro hnd hkeys rows
      obtain ⟨hnot, hrest⟩ := List.nodup_cons.mp hnd
      have hk₀ : key v₀ = k₀ := hkeys _ List.mem_cons_self
      rw [List.map_cons, List.foldl_cons, ih hrest fun e he => hkeys e (List.mem_cons_of_mem _ he),
        hk₀]
      by_cases hk : k = k₀
      · subst hk
        have hnone : find k rest = none := by
          cases hf : find k rest with
          | none => rfl
          | some v => exact absurd (List.mem_map.mpr ⟨_, mem_of_find hf, rfl⟩) hnot
        cases hv : val v₀ <;> simp [hnone, find, hv]
      · cases hv : val v₀ <;> simp [find, hk, get?_insert]
  refine hwrite m.entries m.keys_nodup (fun e he => ?_) rows
  exact hkey e.1 e.2 ((mem_entries_iff m e.1 e.2).mp he)

@[simp] theorem keys_map (f : K → V → W) (m : KeyMap K V) : (m.map f).keys = m.keys := by
  simp [keys, map_entries, Function.comp_def]

end KeyMap

end ForgeFlow.Base

/-!
Member lists: objects as lists of keyed entries, one entry a key, in ascending order of keys.
-/

namespace DocQuery.Members

variable {α : Type}

def Ascending (members : List (String × α)) : Prop :=
  members.Pairwise fun a b => a.1 < b.1

instance (members : List (String × α)) : Decidable (Ascending members) :=
  inferInstanceAs (Decidable (members.Pairwise fun a b => a.1 < b.1))

/-- Puts an entry in its place; an entry under the same key is replaced. -/
def insert (key : String) (value : α) : List (String × α) → List (String × α)
  | [] => [(key, value)]
  | (k, v) :: members =>
    if key < k then (key, value) :: (k, v) :: members
    else if key = k then (key, value) :: members
    else (k, v) :: insert key value members

/-- The members that a list of entries spells, the last entry under a key winning. -/
def ofList (entries : List (String × α)) : List (String × α) :=
  entries.foldl (fun members entry => insert entry.1 entry.2 members) []

theorem mem_keys_insert {key k : String} {value : α} {members : List (String × α)} :
    k ∈ (insert key value members).map Prod.fst ↔ k = key ∨ k ∈ members.map Prod.fst := by
  fun_induction insert key value members with
  | case1 => simp
  | case2 => simp
  | case3 => simp
  | case4 j v members _ _ ih =>
    simp only [List.map_cons, List.mem_cons, ih]
    grind

theorem mem_of_mem_insert {key : String} {value : α} {members : List (String × α)}
    {entry : String × α} (h : entry ∈ insert key value members) :
    entry = (key, value) ∨ entry ∈ members := by
  fun_induction insert key value members with
  | case1 => exact Or.inl (List.mem_singleton.mp h)
  | case2 => exact List.mem_cons.mp h
  | case3 => exact (List.mem_cons.mp h).imp_right (List.mem_cons_of_mem _)
  | case4 k v members hlt hne ih =>
    rcases List.mem_cons.mp h with rfl | h
    · exact Or.inr List.mem_cons_self
    · exact (ih h).imp_right (List.mem_cons_of_mem _)

/-- Members come from the entries that they are built from. -/
theorem mem_of_mem_ofList {entries : List (String × α)} {entry : String × α}
    (h : entry ∈ ofList entries) : entry ∈ entries := by
  have step (entries members : List (String × α))
      (h : entry ∈ entries.foldl (fun members e => insert e.1 e.2 members) members) :
      entry ∈ entries ∨ entry ∈ members := by
    induction entries generalizing members with
    | nil => exact Or.inr h
    | cons e entries ih =>
      rcases ih _ h with hmem | hmem
      · exact Or.inl (List.mem_cons_of_mem _ hmem)
      · rcases mem_of_mem_insert hmem with rfl | hmem
        · exact Or.inl List.mem_cons_self
        · exact Or.inr hmem
  exact (step entries [] h).resolve_right List.not_mem_nil

theorem ascending_insert {members : List (String × α)} (h : Ascending members) (key : String)
    (value : α) : Ascending (insert key value members) := by
  fun_induction insert key value members with
  | case1 => exact List.pairwise_singleton _ _
  | case2 j v members hlt =>
    refine List.pairwise_cons.mpr ⟨fun entry hm => ?_, h⟩
    rcases List.mem_cons.mp hm with rfl | hm
    · exact hlt
    · exact String.lt_trans hlt ((List.pairwise_cons.mp h).1 entry hm)
  | case3 v members =>
    obtain ⟨hk, hm⟩ := List.pairwise_cons.mp h
    exact List.pairwise_cons.mpr ⟨hk, hm⟩
  | case4 j v members hlt hne ih =>
    obtain ⟨hj, hm⟩ := List.pairwise_cons.mp h
    refine List.pairwise_cons.mpr ⟨fun entry he => ?_, ih hm⟩
    have hk : entry.1 ∈ (insert key value members).map Prod.fst := List.mem_map_of_mem he
    rcases mem_keys_insert.mp hk with hk | hk
    · grind
    · obtain ⟨other, ho, he⟩ := List.mem_map.mp hk
      exact he ▸ hj other ho

theorem ascending_ofList (entries : List (String × α)) : Ascending (ofList entries) := by
  have step (members : List (String × α)) (h : Ascending members) :
      Ascending (entries.foldl (fun members entry => insert entry.1 entry.2 members) members) := by
    induction entries generalizing members with
    | nil => exact h
    | cons entry entries ih => exact ih _ (ascending_insert h _ _)
  exact step [] List.Pairwise.nil

theorem lookup_cons (k j : String) (value : α) (members : List (String × α)) :
    ((j, value) :: members).lookup k = if k = j then some value else members.lookup k := by
  rw [List.lookup_cons]
  by_cases h : k = j
  · simp [h]
  · rw [beq_eq_false_iff_ne.mpr h, if_neg h]

/-- An inserted value is found under its key, and nothing else changes. -/
theorem lookup_insert (key k : String) (value : α) (members : List (String × α)) :
    (insert key value members).lookup k = if k = key then some value else members.lookup k := by
  fun_induction insert key value members with
  | case1 => rw [lookup_cons]
  | case2 j v members hlt => rw [lookup_cons]
  | case3 v members => grind [lookup_cons]
  | case4 j v members hlt hne ih =>
    rw [lookup_cons, lookup_cons, ih]
    by_cases h : k = j
    · subst h; simp [Ne.symm hne]
    · simp [h]

/-- Of the entries under one key the last counts. -/
theorem lookup_ofList (entries : List (String × α)) (k : String) :
    (ofList entries).lookup k = entries.reverse.lookup k := by
  have step (members : List (String × α)) :
      (entries.foldl (fun members entry => insert entry.1 entry.2 members) members).lookup k =
        (entries.reverse.lookup k).or (members.lookup k) := by
    induction entries generalizing members with
    | nil => rfl
    | cons entry entries ih =>
      rw [List.foldl_cons, ih, List.reverse_cons, List.lookup_append, lookup_insert]
      obtain ⟨j, v⟩ := entry
      by_cases h : k = j <;> simp [lookup_cons, h]
  rw [ofList, step, List.lookup_nil, Option.or_none]

/-- An entry is found under its key if no later one has that key. -/
theorem lookup_ofList_last {before after : List (String × α)} {key : String} (value : α)
    (h : ∀ entry ∈ after, entry.1 ≠ key) :
    (ofList (before ++ (key, value) :: after)).lookup key = some value := by
  have hafter : after.reverse.lookup key = none := by
    refine List.lookup_eq_none_iff.mpr fun entry hentry => ?_
    exact bne_iff_ne.mpr (Ne.symm (h entry (List.mem_reverse.mp hentry)))
  rw [lookup_ofList, List.reverse_append, List.reverse_cons, List.append_assoc, List.lookup_append,
    hafter, Option.none_or, List.singleton_append, lookup_cons, if_pos rfl]

/-- A key before all others is not there. -/
theorem lookup_eq_none {members : List (String × α)} {k : String}
    (h : ∀ entry ∈ members, k < entry.1) : members.lookup k = none := by
  induction members with
  | nil => rfl
  | cons entry members ih =>
    obtain ⟨j, v⟩ := entry
    have hj : k ≠ j := fun he => String.lt_irrefl _ (he ▸ h (j, v) List.mem_cons_self)
    rw [lookup_cons, if_neg hj]
    exact ih fun entry hm => h entry (List.mem_cons_of_mem _ hm)

/-- Members in order are the same if every look-up is. -/
theorem eq_of_lookup_eq {xs ys : List (String × α)} (hx : Ascending xs) (hy : Ascending ys)
    (h : ∀ k, xs.lookup k = ys.lookup k) : xs = ys := by
  induction xs generalizing ys with
  | nil =>
    cases ys with
    | nil => rfl
    | cons y ys =>
      obtain ⟨k, w⟩ := y
      simpa [lookup_cons] using h k
  | cons x xs ih =>
    obtain ⟨j, v⟩ := x
    obtain ⟨hj, hxs⟩ := List.pairwise_cons.mp hx
    cases ys with
    | nil => simpa [lookup_cons] using h j
    | cons y ys =>
      obtain ⟨k, w⟩ := y
      obtain ⟨hk, hys⟩ := List.pairwise_cons.mp hy
      have hjk : j = k := by
        rcases Std.lt_trichotomy j k with hlt | he | hgt
        · have hnone : ((k, w) :: ys).lookup j = none := lookup_eq_none fun entry hm => by
            rcases List.mem_cons.mp hm with rfl | hm
            · exact hlt
            · exact String.lt_trans hlt (hk entry hm)
          simpa [lookup_cons, hnone] using h j
        · exact he
        · have hnone : ((j, v) :: xs).lookup k = none := lookup_eq_none fun entry hm => by
            rcases List.mem_cons.mp hm with rfl | hm
            · exact hgt
            · exact String.lt_trans hgt (hj entry hm)
          simpa [lookup_cons, hnone] using (h k).symm
      subst hjk
      have hvw : v = w := by simpa [lookup_cons] using h j
      have htail : xs = ys := ih hxs hys fun key => by
        by_cases he : key = j
        · subst he
          rw [lookup_eq_none hj, lookup_eq_none hk]
        · simpa [lookup_cons, he] using h key
      rw [hvw, htail]

/-- Members in order are what their entries build. -/
theorem ofList_eq_self {members : List (String × α)} (h : Ascending members) :
    ofList members = members := by
  refine eq_of_lookup_eq (ascending_ofList _) h fun k => ?_
  rw [lookup_ofList]
  induction members with
  | nil => rfl
  | cons entry members ih =>
    obtain ⟨j, v⟩ := entry
    obtain ⟨hj, hm⟩ := List.pairwise_cons.mp h
    rw [List.reverse_cons, List.lookup_append, ih hm, lookup_cons]
    by_cases hk : k = j
    · subst hk
      rw [lookup_eq_none hj]
      simp
    · simp [lookup_cons, hk]

/-- To change the values and not the keys goes with putting an entry in its place. -/
theorem map_insert {β : Type} (f : α → β) (key : String) (value : α) (members : List (String × α)) :
    (insert key value members).map (fun entry => (entry.1, f entry.2)) =
      insert key (f value) (members.map fun entry => (entry.1, f entry.2)) := by
  fun_induction insert key value members with
  | case1 => rfl
  | case2 k v members hlt => exact (if_pos hlt).symm
  | case3 v members hlt => exact ((if_neg hlt).trans (if_pos rfl)).symm
  | case4 k v members hlt hne ih =>
    rw [List.map_cons, ih, List.map_cons, insert, if_neg hlt, if_neg hne]

theorem map_ofList {β : Type} (f : α → β) (entries : List (String × α)) :
    (ofList entries).map (fun entry => (entry.1, f entry.2)) =
      ofList (entries.map fun entry => (entry.1, f entry.2)) := by
  have step (entries members : List (String × α)) :
      (entries.foldl (fun members entry => insert entry.1 entry.2 members) members).map
          (fun entry => (entry.1, f entry.2)) =
        (entries.map fun entry => (entry.1, f entry.2)).foldl
          (fun members entry => insert entry.1 entry.2 members)
          (members.map fun entry => (entry.1, f entry.2)) := by
    induction entries generalizing members with
    | nil => rfl
    | cons entry entries ih => rw [List.foldl_cons, ih, map_insert, List.map_cons, List.foldl_cons]
  exact step entries []

/-- The members whose keys are not behind a key. -/
def upTo (key : String) (members : List (String × α)) : List (String × α) :=
  members.filter fun entry => decide (entry.1 ≤ key)

theorem mem_upTo {key : String} {members : List (String × α)} {entry : String × α} :
    entry ∈ upTo key members ↔ entry ∈ members ∧ entry.1 ≤ key := by
  rw [upTo, List.mem_filter, decide_eq_true_iff]

theorem upTo_cons (key : String) (entry : String × α) (members : List (String × α)) :
    upTo key (entry :: members) =
      if entry.1 ≤ key then entry :: upTo key members else upTo key members := by
  rw [upTo, List.filter_cons]
  simp only [decide_eq_true_iff]
  rfl

theorem lookup_upTo (key k : String) (members : List (String × α)) :
    (upTo key members).lookup k = if k ≤ key then members.lookup k else none := by
  induction members with
  | nil => simp [upTo]
  | cons entry members ih =>
    obtain ⟨j, v⟩ := entry
    rw [upTo_cons]
    split <;> grind [lookup_cons]

/-- In order, all other members come after those up to a key. -/
theorem exists_eq_upTo_append {members : List (String × α)} (h : Ascending members)
    (key : String) : ∃ rest, members = upTo key members ++ rest := by
  induction members with
  | nil => exact ⟨[], rfl⟩
  | cons entry members ih =>
    obtain ⟨hentry, hmembers⟩ := List.pairwise_cons.mp h
    obtain ⟨rest, hrest⟩ := ih hmembers
    by_cases hle : entry.1 ≤ key
    · refine ⟨rest, ?_⟩
      rw [upTo_cons, if_pos hle, List.cons_append, ← hrest]
    · have hnone : upTo key members = [] := by
        apply List.eq_nil_iff_forall_not_mem.mpr
        intro other hother
        obtain ⟨hmem, hkey⟩ := mem_upTo.mp hother
        have hlt := hentry other hmem
        grind
      refine ⟨entry :: members, ?_⟩
      rw [upTo_cons, if_neg hle, hnone, List.nil_append]

/-- Members in order that agree up to a key are the same ones up to there. -/
theorem upTo_eq_of_lookup_eq {members others : List (String × α)} (hmembers : Ascending members)
    (hothers : Ascending others) {key : String}
    (h : ∀ k, k ≤ key → members.lookup k = others.lookup k) :
    upTo key members = upTo key others := by
  apply eq_of_lookup_eq (List.Pairwise.filter _ hmembers) (List.Pairwise.filter _ hothers)
  intro k
  have hlookup := lookup_upTo key k members
  have hlookup' := lookup_upTo key k others
  by_cases hk : k ≤ key
  · rw [if_pos hk] at hlookup hlookup'
    exact hlookup.trans ((h k hk).trans hlookup'.symm)
  · rw [if_neg hk] at hlookup hlookup'
    exact hlookup.trans hlookup'.symm

end DocQuery.Members

import DocClient.Proofs.Fields
import Mathlib.Data.List.Induction
import Mathlib.Data.String.Basic

/-! Lists of named values in ascending order, the form of unordered documents. Such lists are equal when they
give the same under every name. Main statement: `collectSorted_eq_byName_latest`. -/
namespace DocClient.Fields

variable {α β : Type}

/-- What a list gives under a name when later pairs win. -/
def last? (pairs : Fields α) (name : String) : Option α := get? pairs.reverse name

/-- The pairs whose names do not come again. -/
def latest : Fields α → Fields α
  | [] => []
  | (k, v) :: rest => if has rest k then latest rest else (k, v) :: latest rest

def mapValues (f : α → β) (fields : Fields α) : Fields β := fields.map fun p => (p.1, f p.2)

theorem last?_cons (k : String) (v : α) (rest : Fields α) (name : String) :
    last? ((k, v) :: rest) name = (last? rest name).or (if k = name then some v else none) := by
  unfold last?
  rw [List.reverse_cons, get?_append]
  rfl

theorem last?_eq_none_iff {pairs : Fields α} {name : String} :
    last? pairs name = none ↔ name ∉ names pairs := by
  unfold last?
  rw [get?_eq_none_iff]
  simp [names]

theorem names_mapValues (f : α → β) (fields : Fields α) : names (mapValues f fields) = names fields := by
  unfold names mapValues
  rw [List.map_map]
  rfl

theorem get?_mapValues (f : α → β) (fields : Fields α) (name : String) :
    get? (mapValues f fields) name = (get? fields name).map f := by
  induction fields with
  | nil => rfl
  | cons p rest ih =>
    change (if p.1 = name then some (f p.2) else get? (mapValues f rest) name) = _
    by_cases h : p.1 = name
    · rw [if_pos h, get?, if_pos h]
      rfl
    · rw [if_neg h, get?, if_neg h, ih]

theorem mem_of_last? {pairs : Fields α} {name : String} {v : α} (h : last? pairs name = some v) :
    (name, v) ∈ pairs := List.mem_reverse.mp (mem_of_get? h)

section Distinct

variable {pairs fields : Fields α}

theorem get?_eq_some_iff (h : (names fields).Nodup) {name : String} {v : α} :
    get? fields name = some v ↔ (name, v) ∈ fields := by
  induction fields with
  | nil => simp
  | cons p rest ih =>
    obtain ⟨k, w⟩ := p
    obtain ⟨hk, hrest⟩ := List.nodup_cons.mp h
    by_cases hname : k = name
    · subst hname
      have hnot : (k, v) ∉ rest := fun hmem => hk (List.mem_map.mpr ⟨(k, v), hmem, rfl⟩)
      simp [hnot, eq_comm]
    · simp [hname, Ne.symm hname, ih hrest]

theorem get?_eq_of_perm {a b : Fields α} (h : (names a).Nodup) (hperm : a.Perm b) (name : String) :
    get? a name = get? b name := by
  have hb : (names b).Nodup := (hperm.map Prod.fst).nodup h
  apply Option.ext
  intro v
  rw [get?_eq_some_iff h, get?_eq_some_iff hb, hperm.mem_iff]

theorem last?_of_nodup (h : (names pairs).Nodup) (name : String) : last? pairs name = get? pairs name :=
  (get?_eq_of_perm h (List.reverse_perm pairs).symm name).symm

end Distinct

/-- Putting pair by pair, in whatever places, makes later pairs win. -/
private theorem get?_foldl {insert : Fields α → String → α → Fields α} {name : String}
    (hinsert : ∀ fields k v, get? (insert fields k v) name = if k = name then some v else get? fields name)
    (pairs fields : Fields α) :
    get? (pairs.foldl (fun fields (k, v) => insert fields k v) fields) name =
      (last? pairs name).or (get? fields name) := by
  induction pairs generalizing fields with
  | nil => rfl
  | cons p rest ih =>
    obtain ⟨k, v⟩ := p
    rw [List.foldl_cons, ih, last?_cons, Option.or_assoc, hinsert]
    by_cases hk : k = name <;> simp [hk]

theorem eraseDups_concat [DecidableEq α] (as : List α) (a : α) :
    (as ++ [a]).eraseDups = if a ∈ as then as.eraseDups else as.eraseDups ++ [a] := by
  rw [List.eraseDups_append]
  by_cases hmem : a ∈ as
  · simp [hmem, List.removeAll]
  · simp [hmem, List.removeAll, List.eraseDups_cons]

section Putting

variable (fields pairs : Fields α)

theorem names_put (name : String) (v : α) :
    names (put fields name v) = if name ∈ names fields then names fields else names fields ++ [name] := by
  induction fields with
  | nil => rfl
  | cons p rest ih =>
    obtain ⟨k, w⟩ := p
    by_cases hk : k = name
    · simp [put, hk]
    · rw [put, if_neg hk, names_cons, ih, names_cons]
      by_cases hmem : name ∈ names rest
      · simp [hmem]
      · simp [hmem, Ne.symm hk]

theorem nodup_put (h : (names fields).Nodup) (name : String) (v : α) :
    (names (put fields name v)).Nodup := by
  rw [names_put]
  by_cases hmem : name ∈ names fields
  · rwa [if_pos hmem]
  · rw [if_neg hmem]
    exact List.Nodup.append h (List.nodup_singleton name) (by simpa using hmem)

theorem nodup_collect : (names (collect pairs)).Nodup :=
  List.foldlRecOn pairs _ (motive := fun fields => (names fields).Nodup) List.nodup_nil
    fun fields h p _ => nodup_put fields h p.1 p.2

theorem get?_collect (name : String) : get? (collect pairs) name = last? pairs name := by
  have hput : ∀ (fields : Fields α) (k : String) (v : α),
      get? (put fields k v) name = if k = name then some v else get? fields name := by
    intro fields k v
    by_cases hk : k = name
    · rw [← hk, get?_put_self, if_pos rfl]
    · rw [get?_put_of_ne _ _ (Ne.symm hk), if_neg hk]
  unfold collect
  rw [get?_foldl hput, get?_nil, Option.or_none]

theorem mem_of_mem_collect {p : String × α} (h : p ∈ collect pairs) : p ∈ pairs := by
  rw [← get?_eq_some_iff (nodup_collect pairs), get?_collect] at h
  exact mem_of_last? h

theorem collect_concat (name : String) (v : α) : collect (pairs ++ [(name, v)]) = put (collect pairs) name v :=
  List.foldl_append ..

/-- Collected pairs have the distinct names in the order in which each came first. -/
theorem names_collect : names (collect pairs) = (names pairs).eraseDups := by
  induction pairs using List.reverseRecOn with
  | nil => rfl
  | append_singleton pairs p ih =>
    obtain ⟨k, v⟩ := p
    have hnames : names (pairs ++ [(k, v)]) = names pairs ++ [k] := List.map_append ..
    rw [collect_concat, names_put, ih, hnames, eraseDups_concat]
    simp only [List.mem_eraseDups]

theorem collect_mapValues (f : α → β) : collect (mapValues f pairs) = mapValues f (collect pairs) := by
  have hput : ∀ (fields : Fields α) (k : String) (v : α),
      put (mapValues f fields) k (f v) = mapValues f (put fields k v) := by
    intro fields k v
    induction fields with
    | nil => rfl
    | cons p rest ih =>
      obtain ⟨l, w⟩ := p
      change put ((l, f w) :: mapValues f rest) k (f v) = _
      by_cases hl : l = k
      · simp [put, hl, mapValues]
      · rw [put, if_neg hl, ih, put, if_neg hl]
        rfl
  have hfold : ∀ (pairs fields : Fields α),
      (mapValues f pairs).foldl (fun fields (k, v) => fields.put k v) (mapValues f fields) =
        mapValues f (pairs.foldl (fun fields (k, v) => fields.put k v) fields) := by
    intro pairs
    induction pairs with
    | nil => exact fun _ => rfl
    | cons p rest ih =>
      intro fields
      rw [List.foldl_cons, ← ih, ← hput]
      rfl
  exact hfold pairs []

end Putting

section Order

theorem ascending_iff {fields : Fields α} :
    ascending fields = true ↔ (names fields).Pairwise (· < ·) := by
  induction fields with
  | nil => simp [ascending]
  | cons p rest ih =>
    obtain ⟨k, v⟩ := p
    rw [ascending, Bool.and_eq_true, ih, names_cons, List.pairwise_cons]
    constructor
    · rintro ⟨hhead, hrest⟩
      refine ⟨?_, hrest⟩
      intro name hname
      cases hcons : names rest with
      | nil => simp [hcons] at hname
      | cons l others =>
        rw [hcons] at hhead hrest hname
        have hkl : k < l := by simpa using hhead
        rcases List.mem_cons.mp hname with rfl | hmem
        · exact hkl
        · exact lt_trans hkl ((List.pairwise_cons.mp hrest).1 name hmem)
    · rintro ⟨hall, hrest⟩
      refine ⟨?_, hrest⟩
      cases hcons : names rest with
      | nil => rfl
      | cons l others => simpa using hall l (by simp [hcons])

theorem nodup_of_pairwise {fields : Fields α} (h : (names fields).Pairwise (· < ·)) :
    (names fields).Nodup := h.imp ne_of_lt

/-- Lists in ascending order are equal when they give the same under every name. -/
theorem eq_of_get?_eq {a b : Fields α} (ha : (names a).Pairwise (· < ·))
    (hb : (names b).Pairwise (· < ·)) (h : ∀ name, get? a name = get? b name) : a = b := by
  induction a generalizing b with
  | nil =>
    cases b with
    | nil => rfl
    | cons q bs =>
      have := h q.1
      simp [get?] at this
  | cons p as ih =>
    obtain ⟨k, v⟩ := p
    obtain ⟨hka, has⟩ := List.pairwise_cons.mp ha
    cases b with
    | nil => simpa using h k
    | cons q bs =>
      obtain ⟨l, w⟩ := q
      obtain ⟨hlb, hbs⟩ := List.pairwise_cons.mp hb
      -- The lesser of two different first names would be missing in the other list.
      have hkl : k = l := by
        rcases lt_trichotomy k l with hlt | heq | hlt
        · have hnone : get? bs k = none :=
            get?_eq_none_iff.mpr fun hmem => lt_asymm hlt (hlb k hmem)
          have := h k
          simp [ne_of_gt hlt, hnone] at this
        · exact heq
        · have hnone : get? as l = none :=
            get?_eq_none_iff.mpr fun hmem => lt_asymm hlt (hka l hmem)
          have := h l
          simp [ne_of_gt hlt, hnone] at this
      subst hkl
      have hvw : v = w := by simpa using h k
      subst hvw
      refine congrArg _ (ih has hbs ?_)
      intro name
      by_cases hname : k = name
      · subst hname
        rw [get?_eq_none_iff.mpr fun hmem => lt_irrefl k (hka k hmem),
          get?_eq_none_iff.mpr fun hmem => lt_irrefl k (hlb k hmem)]
      · simpa [hname] using h name

theorem mem_names_putSorted {fields : Fields α} {name other : String} {v : α} :
    other ∈ names (putSorted fields name v) ↔ other = name ∨ other ∈ names fields := by
  have hsome : ∀ fields : Fields α, other ∈ names fields ↔ get? fields other ≠ none := by
    intro fields
    simp [get?_eq_none_iff]
  rw [hsome, get?_putSorted, hsome]
  by_cases h : name = other <;> simp [h, eq_comm]

theorem pairwise_putSorted {fields : Fields α} (h : (names fields).Pairwise (· < ·)) (name : String)
    (v : α) : (names (putSorted fields name v)).Pairwise (· < ·) := by
  induction fields with
  | nil => simp [putSorted]
  | cons p rest ih =>
    obtain ⟨k, w⟩ := p
    obtain ⟨hk, hrest⟩ := List.pairwise_cons.mp h
    rw [putSorted]
    by_cases heq : name = k
    · subst heq
      rw [if_pos rfl]
      exact h
    rw [if_neg heq]
    by_cases hlt : name < k
    · rw [if_pos hlt]
      refine List.pairwise_cons.mpr ⟨?_, h⟩
      intro other hother
      rcases List.mem_cons.mp hother with rfl | hmem
      · exact hlt
      · exact lt_trans hlt (hk other hmem)
    · rw [if_neg hlt]
      refine List.pairwise_cons.mpr ⟨?_, ih hrest⟩
      intro other hother
      rcases mem_names_putSorted.mp hother with rfl | hmem
      · exact lt_of_le_of_ne (not_lt.mp hlt) (Ne.symm heq)
      · exact hk other hmem

theorem pairwise_collectSorted (pairs : Fields α) : (names (collectSorted pairs)).Pairwise (· < ·) :=
  List.foldlRecOn pairs _ (motive := fun fields => (names fields).Pairwise (· < ·)) List.Pairwise.nil
    fun _ h p _ => pairwise_putSorted h p.1 p.2

theorem get?_collectSorted_eq_last? (pairs : Fields α) (name : String) :
    get? (collectSorted pairs) name = last? pairs name := by
  unfold collectSorted
  rw [get?_foldl fun fields k v => get?_putSorted fields k name v, get?_nil, Option.or_none]

/-- Sorting distinct names leaves what is found under them. -/
theorem get?_collectSorted {pairs : Fields α} (h : (names pairs).Nodup) (name : String) :
    get? (collectSorted pairs) name = get? pairs name := by
  rw [get?_collectSorted_eq_last?, last?_of_nodup h]

/-- A list in ascending order is collected as it is. -/
theorem collectSorted_of_pairwise {fields : Fields α} (h : (names fields).Pairwise (· < ·)) :
    collectSorted fields = fields := by
  refine eq_of_get?_eq (pairwise_collectSorted fields) h ?_
  intro name
  rw [get?_collectSorted_eq_last?, last?_of_nodup (nodup_of_pairwise h)]

/-- Sorting after the repeated names were taken together is sorting. -/
theorem collectSorted_collect (pairs : Fields α) : collectSorted (collect pairs) = collectSorted pairs := by
  refine eq_of_get?_eq (pairwise_collectSorted _) (pairwise_collectSorted _) ?_
  intro name
  rw [get?_collectSorted_eq_last?, last?_of_nodup (nodup_collect pairs), get?_collect,
    get?_collectSorted_eq_last?]

theorem collectSorted_mapValues (f : α → β) (pairs : Fields α) :
    collectSorted (mapValues f pairs) = mapValues f (collectSorted pairs) := by
  have hsorted : (names (mapValues f (collectSorted pairs))).Pairwise (· < ·) := by
    rw [names_mapValues]
    exact pairwise_collectSorted pairs
  refine eq_of_get?_eq (pairwise_collectSorted _) hsorted ?_
  intro name
  have hreverse : (mapValues f pairs).reverse = mapValues f pairs.reverse := List.map_reverse.symm
  rw [get?_collectSorted_eq_last?, get?_mapValues, get?_collectSorted_eq_last?, last?, hreverse, get?_mapValues]
  rfl

end Order

section Latest

theorem get?_latest (pairs : Fields α) (name : String) : get? (latest pairs) name = last? pairs name := by
  induction pairs with
  | nil => rfl
  | cons p rest ih =>
    obtain ⟨k, v⟩ := p
    have hhas : has rest k = true ↔ last? rest k ≠ none := by
      simp [has, last?_eq_none_iff, Option.isSome_iff_ne_none, get?_eq_none_iff]
    rw [latest, last?_cons]
    by_cases hk : has rest k = true
    · rw [if_pos hk, ih]
      by_cases hname : k = name
      · subst hname
        obtain ⟨w, hw⟩ := Option.ne_none_iff_exists'.mp (hhas.mp hk)
        simp [hw]
      · simp [hname]
    · rw [if_neg hk, get?_cons, ih]
      by_cases hname : k = name
      · subst hname
        have hnone : last? rest k = none := by
          by_contra hne
          exact hk (hhas.mpr hne)
        simp [hnone]
      · simp [hname]

theorem nodup_latest (pairs : Fields α) : (names (latest pairs)).Nodup := by
  induction pairs with
  | nil => exact List.nodup_nil
  | cons p rest ih =>
    obtain ⟨k, v⟩ := p
    rw [latest]
    by_cases hk : has rest k = true
    · rwa [if_pos hk]
    · rw [if_neg hk, names_cons]
      refine List.nodup_cons.mpr ⟨?_, ih⟩
      rw [← get?_eq_none_iff, get?_latest, last?_eq_none_iff, ← get?_eq_none_iff]
      simpa [has] using hk

theorem latest_of_nodup {pairs : Fields α} (h : (names pairs).Nodup) : latest pairs = pairs := by
  induction pairs with
  | nil => rfl
  | cons p rest ih =>
    obtain ⟨k, v⟩ := p
    obtain ⟨hk, hrest⟩ := List.nodup_cons.mp h
    have hnone : ¬ has rest k = true := by
      rw [has, get?_eq_none_iff.mpr hk]
      simp
    rw [latest, if_neg hnone, ih hrest]

theorem pairwise_byName {fields : Fields α} (h : (names fields).Nodup) :
    (names (byName fields)).Pairwise (· < ·) := by
  have htrans : ∀ a b c : String × α, decide (a.1 ≤ b.1) = true → decide (b.1 ≤ c.1) = true →
      decide (a.1 ≤ c.1) = true := by
    intro a b c hab hbc
    simp only [decide_eq_true_eq] at hab hbc ⊢
    exact le_trans hab hbc
  have htotal : ∀ a b : String × α, (decide (a.1 ≤ b.1) || decide (b.1 ≤ a.1)) = true := by
    intro a b
    simpa using le_total a.1 b.1
  have hsorted : (names (byName fields)).Pairwise (· ≤ ·) := by
    unfold names byName
    rw [List.pairwise_map]
    exact (List.pairwise_mergeSort htrans htotal fields).imp of_decide_eq_true
  have hnodup : (names (byName fields)).Nodup :=
    ((List.mergeSort_perm fields _).symm.map Prod.fst).nodup h
  exact (hsorted.and hnodup).imp fun hle => lt_of_le_of_ne hle.1 hle.2

/-- The unordered document of some pairs holds the pairs whose names do not come again, in the order of their
names. -/
theorem collectSorted_eq_byName_latest (pairs : Fields α) :
    collectSorted pairs = byName (latest pairs) := by
  refine eq_of_get?_eq (pairwise_collectSorted pairs) (pairwise_byName (nodup_latest pairs)) ?_
  intro name
  have hperm : (byName (latest pairs)).Perm (latest pairs) := List.mergeSort_perm _ _
  rw [get?_collectSorted_eq_last?, ← get?_latest, get?_eq_of_perm (nodup_latest pairs) hperm.symm]

end Latest

end DocClient.Fields

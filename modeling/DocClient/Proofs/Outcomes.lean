import DocClient.Destination
import Mathlib.Data.List.Forall2

/-! Steps that may fail, one after another and item by item: when a sequence of steps succeeds, and with what, and
what it may fail with. -/
namespace DocClient

section Steps

variable {ε ε' α β : Type} {outcome : Except ε α}

theorem bind_eq_ok_iff {f : α → Except ε β} {b : β} :
    (outcome >>= f) = .ok b ↔ ∃ a, outcome = .ok a ∧ f a = .ok b := by
  cases outcome with
  | error e => exact ⟨nofun, fun ⟨_, h, _⟩ => nomatch h⟩
  | ok a => exact ⟨fun h => ⟨a, rfl, h⟩, fun ⟨_, ha, h⟩ => Except.ok.inj ha ▸ h⟩

theorem bind_eq_error_iff {f : α → Except ε β} {e : ε} :
    (outcome >>= f) = .error e ↔ outcome = .error e ∨ ∃ a, outcome = .ok a ∧ f a = .error e := by
  cases outcome with
  | error e' => exact ⟨fun h => .inl (congrArg Except.error (Except.error.inj h)), fun
    | .inl h => congrArg Except.error (Except.error.inj h)
    | .inr ⟨_, h, _⟩ => nomatch h⟩
  | ok a => exact ⟨fun h => .inr ⟨a, rfl, h⟩, fun
    | .inl h => nomatch h
    | .inr ⟨_, ha, h⟩ => Except.ok.inj ha ▸ h⟩

theorem map_eq_ok_iff {f : α → β} {b : β} : outcome.map f = .ok b ↔ ∃ a, outcome = .ok a ∧ f a = b := by
  cases outcome <;> simp [Except.map]

theorem map_eq_error_iff {f : α → β} {e : ε} : outcome.map f = .error e ↔ outcome = .error e := by
  cases outcome <;> simp [Except.map]

/-- A place that is told to have a result holds it. -/
theorem assigned_eq_ok_iff {previous held : α} :
    (outcome.map fun _ => (), assigned previous outcome) = (.ok (), held) ↔ outcome = .ok held := by
  cases outcome <;> simp [Except.map, assigned]

/-- A place that is told of a failure holds what it held. -/
theorem assigned_eq_error_iff {previous held : α} {e : ε} :
    (outcome.map fun _ => (), assigned previous outcome) = (.error e, held) ↔
      outcome = .error e ∧ held = previous := by
  cases outcome <;> simp [Except.map, assigned, eq_comm]

theorem mapError_eq_ok_iff {f : ε → ε'} {a : α} : outcome.mapError f = .ok a ↔ outcome = .ok a := by
  cases outcome <;> simp [Except.mapError]

end Steps

section Failing

variable {ε α β : Type} {P : ε → Prop} {outcome : Except ε α}

/-- If an outcome is an error, it is one of a sort. -/
def FailsOnly (P : ε → Prop) (outcome : Except ε α) : Prop := ∀ e, outcome = .error e → P e

theorem failsOnly_ok (a : α) : FailsOnly P (.ok a) := nofun

theorem failsOnly_error {e : ε} (h : P e) : FailsOnly P (.error e : Except ε α) := by
  rintro _ ⟨⟩
  exact h

theorem FailsOnly.bind {f : α → Except ε β} (h : FailsOnly P outcome) (hf : ∀ a, FailsOnly P (f a)) :
    FailsOnly P (outcome >>= f) := by
  cases outcome with
  | error e => exact failsOnly_error (h e rfl)
  | ok a => exact hf a

/-- Whatever the error was, it is replaced. -/
theorem FailsOnly.mapError {ε' : Type} {Q : ε' → Prop} {f : ε → ε'} (outcome : Except ε α) (h : ∀ e, Q (f e)) :
    FailsOnly Q (outcome.mapError f) := by
  cases outcome with
  | error e => exact failsOnly_error (h e)
  | ok a => exact failsOnly_ok a

end Failing

section Items

variable {ε α β : Type} {f : α → Except ε β} {as : List α}

theorem eachItem_eq_ok_iff {bs : List β} :
    eachItem f as = .ok bs ↔ List.Forall₂ (fun a b => f a = .ok b) as bs := by
  induction as generalizing bs with
  | nil =>
    rw [List.forall₂_nil_left_iff]
    exact ⟨fun h => (Except.ok.inj h).symm, fun h => congrArg Except.ok h.symm⟩
  | cons a rest ih =>
    rw [eachItem, bind_eq_ok_iff, List.forall₂_cons_left_iff]
    constructor
    · rintro ⟨b, hb, hrest⟩
      obtain ⟨bs', hbs, hall⟩ := bind_eq_ok_iff.mp hrest
      exact ⟨b, bs', hb, ih.mp hbs, (Except.ok.inj hall).symm⟩
    · rintro ⟨b, bs', hb, hbs, rfl⟩
      exact ⟨b, hb, bind_eq_ok_iff.mpr ⟨bs', ih.mpr hbs, rfl⟩⟩

theorem exists_eachItem_eq_ok_iff : (∃ bs, eachItem f as = .ok bs) ↔ ∀ a ∈ as, ∃ b, f a = .ok b := by
  simp only [eachItem_eq_ok_iff]
  induction as with
  | nil => simp
  | cons a rest ih =>
    rw [List.forall_mem_cons, ← ih]
    constructor
    · rintro ⟨_, hb | ⟨hb, hrest⟩⟩
      exact ⟨⟨_, hb⟩, _, hrest⟩
    · rintro ⟨⟨b, hb⟩, bs, hbs⟩
      exact ⟨b :: bs, .cons hb hbs⟩

/-- The error of a traversal is the one of the first item that fails. -/
theorem eachItem_eq_error_iff {e : ε} :
    eachItem f as = .error e ↔
      ∃ before a after, as = before ++ a :: after ∧ (∀ a' ∈ before, ∃ b, f a' = .ok b) ∧ f a = .error e := by
  constructor
  · intro h
    induction as with
    | nil => cases h
    | cons a rest ih =>
      obtain ha | ⟨b, hb, hrest⟩ := bind_eq_error_iff.mp h
      · exact ⟨[], a, rest, rfl, nofun, ha⟩
      obtain hfails | ⟨bs, -, hdone⟩ := bind_eq_error_iff.mp hrest
      · obtain ⟨before, a', after, rfl, hbefore, ha'⟩ := ih hfails
        exact ⟨a :: before, a', after, rfl, List.forall_mem_cons.mpr ⟨⟨b, hb⟩, hbefore⟩, ha'⟩
      · cases hdone
  · rintro ⟨before, a, after, rfl, hbefore, ha⟩
    induction before with
    | nil => exact bind_eq_error_iff.mpr (.inl ha)
    | cons a' before ih =>
      obtain ⟨⟨b, hb⟩, hbefore⟩ := List.forall_mem_cons.mp hbefore
      have hrest := ih hbefore
      exact bind_eq_error_iff.mpr (.inr ⟨b, hb, bind_eq_error_iff.mpr (.inl hrest)⟩)

theorem mapM_eq_ok {g : α → β} (h : ∀ a ∈ as, f a = .ok (g a)) : as.mapM f = .ok (as.map g) := by
  induction as with
  | nil => rfl
  | cons a rest ih =>
    obtain ⟨ha, hrest⟩ := List.forall_mem_cons.mp h
    rw [List.mapM_cons, ha, ih hrest]
    rfl

/-- Items that are read back one by one are read back in a row. -/
theorem mapM_map_eq_some {γ : Type} {read : β → Option γ} {g : α → β} {k : α → γ}
    (h : ∀ a ∈ as, read (g a) = some (k a)) : (as.map g).mapM read = some (as.map k) := by
  induction as with
  | nil => rfl
  | cons a rest ih =>
    obtain ⟨ha, hrest⟩ := List.forall_mem_cons.mp h
    rw [List.map_cons, List.mapM_cons, ha, ih hrest]
    rfl

theorem decodeItems_eq_eachItem (read : Bson → Except DecodeCause α) (items : List Bson) :
    decodeItems read items = eachItem read items := by
  induction items with
  | nil => rfl
  | cons b rest ih => rw [decodeItems, eachItem, ih]

theorem toOption_eachItem (f : α → Except ε β) (as : List α) :
    (eachItem f as).toOption = as.mapM fun a => (f a).toOption := by
  induction as with
  | nil => rfl
  | cons a rest ih =>
    rw [eachItem, List.mapM_cons, ← ih]
    cases f a with
    | error e => rfl
    | ok b => cases eachItem f rest <;> rfl

/-- Where no value is read in both of two ways, a list is read alike only if it is empty or cannot be read in
either way. -/
theorem toOption_eachItem_eq_iff {g : α → Except ε β} (hnone : ∀ a b c, f a = .ok b → g a ≠ .ok c) (as : List α) :
    (eachItem f as).toOption = (eachItem g as).toOption ↔
      as = [] ∨ (∃ a ∈ as, ¬ ∃ b, f a = .ok b) ∧ ∃ a ∈ as, ¬ ∃ b, g a = .ok b := by
  have hfails : ∀ h : α → Except ε β, (∀ bs, eachItem h as ≠ .ok bs) ↔ ∃ a ∈ as, ¬ ∃ b, h a = .ok b := by
    intro h
    rw [← not_exists, exists_eachItem_eq_ok_iff]
    simp
  rw [← hfails, ← hfails]
  cases as with
  | nil => exact iff_of_true rfl (.inl rfl)
  | cons a rest =>
    have hboth : ∀ bs cs, eachItem f (a :: rest) = .ok bs → eachItem g (a :: rest) ≠ .ok cs := by
      intro bs cs hbs hcs
      obtain ⟨b, -, hb, -⟩ := List.forall₂_cons_left_iff.mp (eachItem_eq_ok_iff.mp hbs)
      obtain ⟨c, -, hc, -⟩ := List.forall₂_cons_left_iff.mp (eachItem_eq_ok_iff.mp hcs)
      exact hnone a b c hb hc
    rw [or_iff_right (List.cons_ne_nil a rest)]
    cases hf : eachItem f (a :: rest) with
    | error e => cases hg : eachItem g (a :: rest) <;> simp [Except.toOption]
    | ok bs =>
      cases hg : eachItem g (a :: rest) with
      | error e => simp [Except.toOption]
      | ok cs => exact absurd hg (hboth bs cs hf)

/-- Lists that are read in two ways hold alike items exactly if every item is in a form that the first way
takes. -/
theorem eachItem_alike_iff {ε' β' γ : Type} {g : α → Except ε' β'} {form : β → γ} {form' : β' → γ} {takes : α → Prop}
    {ds : List β'}
    (h : ∀ a ∈ as, ∀ d, g a = .ok d → ((∃ b, f a = .ok b ∧ form b = form' d) ↔ takes a))
    (hds : eachItem g as = .ok ds) :
    (∃ bs, eachItem f as = .ok bs ∧ bs.map form = ds.map form') ↔ ∀ a ∈ as, takes a := by
  rw [eachItem_eq_ok_iff] at hds
  simp only [eachItem_eq_ok_iff]
  induction hds with
  | nil => simp
  | @cons a d as ds hd hrest ih =>
    obtain ⟨hhead, htail⟩ := List.forall_mem_cons.mp h
    rw [List.forall_mem_cons, ← hhead d hd, ← ih htail]
    constructor
    · rintro ⟨_, hb | ⟨hb, hbs⟩, hforms⟩
      obtain ⟨hform, hforms⟩ := List.cons.inj hforms
      exact ⟨⟨_, hb, hform⟩, _, hbs, hforms⟩
    · rintro ⟨⟨b, hb, hform⟩, bs, hbs, hforms⟩
      exact ⟨b :: bs, .cons hb hbs, congrArg₂ _ hform hforms⟩

end Items

end DocClient

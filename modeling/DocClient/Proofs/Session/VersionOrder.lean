import DocClient.Session.Basic
import Mathlib.Data.Int.Order.Basic
import Mathlib.Data.List.Lex

/-! The order of server versions. Main statement: `versions_ordered`, by which a server is at least of just the versions
that do not come after its own in the lexicographic order, where a version comes before those that go on after it. -/
namespace DocClient.BuildInfo

section Lists

variable {version want : List Int32}

/-- The first parts decide unless they are the same. -/
theorem isAtLeast_cons_eq_false_iff {part other : Int32} :
    isAtLeast (part :: version) (other :: want) = false ↔
      part.toInt < other.toInt ∨ part.toInt = other.toInt ∧ isAtLeast version want = false := by
  rw [isAtLeast, Int32.toInt_inj]
  by_cases h : part = other
  · subst h
    simp
  · have hne : part.toInt ≠ other.toInt := fun heq => h (Int32.toInt_inj.mp heq)
    rw [if_neg h, decide_eq_false_iff_not, Int32.lt_iff_toInt_lt]
    simp only [h, false_and, or_false]
    omega

/-- What a version falls short of is what comes after it. -/
theorem isAtLeast_eq_false_iff :
    isAtLeast version want = false ↔ version.map Int32.toInt < want.map Int32.toInt := by
  -- The induction is on what is wanted: at its end every version is enough, while a version that ends before is not.
  induction want generalizing version with
  | nil => simp [isAtLeast]
  | cons other want ih =>
    cases version with
    | nil => simp [isAtLeast]
    | cons part version =>
      rw [isAtLeast_cons_eq_false_iff, List.map_cons, List.map_cons, List.cons_lt_cons_iff, ih]

theorem isAtLeast_iff_le : isAtLeast version want = true ↔ want.map Int32.toInt ≤ version.map Int32.toInt := by
  rw [← not_lt, ← isAtLeast_eq_false_iff, Bool.not_eq_false]

end Lists

/-- A server is at least of the versions up to its own in the lexicographic order of their parts, which makes this a
reflexive, transitive and total relation of versions. -/
theorem versions_ordered :
    (∀ (info : BuildInfo) (want : List Int32),
        info.versionAtLeast want = true ↔ want.map Int32.toInt ≤ info.versionArray.map Int32.toInt) ∧
      (∀ version, isAtLeast version version = true) ∧
      (∀ newer version older, isAtLeast newer version = true → isAtLeast version older = true →
        isAtLeast newer older = true) ∧
      ∀ version other, isAtLeast version other = true ∨ isAtLeast other version = true := by
  refine ⟨fun info want => isAtLeast_iff_le, ?_⟩
  simp only [isAtLeast_iff_le]
  refine ⟨?refl, ?trans, ?total⟩
  case refl => exact fun version => le_rfl
  case trans => exact fun newer version older hnewer holder => holder.trans hnewer
  case total => exact fun version other => le_total _ _

/-- A candidate of a release, whose last part is negative. -/
theorem versions_ordered_candidate :
    let info : BuildInfo := { default with versionArray := [5, 0, 0, -49] }
    info.versionAtLeast [5, 0, 0] = true ∧ info.versionAtLeast [5, 0, 0, 0] = false ∧
      isAtLeast [5, 0, 0] [4, 4, 10, 0, 1] = true ∧ info.versionAtLeast [4, 4, 10, 0, 1] = true := by
  intro info
  obtain ⟨hle, -, htrans, -⟩ := versions_ordered
  have hshorter : info.versionAtLeast [5, 0, 0] = true := (hle info _).mpr (by decide)
  have hrelease : ¬ info.versionAtLeast [5, 0, 0, 0] = true := fun h => absurd ((hle info _).mp h) (by decide)
  have holder : isAtLeast [5, 0, 0] [4, 4, 10, 0, 1] = true := isAtLeast_iff_le.mpr (by decide)
  exact ⟨hshorter, Bool.eq_false_iff.mpr hrelease, holder, htrans _ _ _ hshorter holder⟩

end DocClient.BuildInfo

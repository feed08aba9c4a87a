import DocClient.Session.Address
import Mathlib.Data.List.Basic

/-! The database that an address names. Main statement: `databaseName_eq_database_iff`, by which this is the name in
the path, unless a slash in the options of an address without a path leads to another. -/
namespace DocClient.Address

/-! ### The parts of an address -/

inductive Scheme
  | plain
  /-- The hosts are looked up under the name that is given. -/
  | seeded

def Scheme.text : Scheme → String
  | .plain => "mongodb://"
  | .seeded => "mongodb+srv://"

def Scheme.chars (scheme : Scheme) : List Char := scheme.text.toList

/-- The parts of an address, of which all but the hosts may be missing. -/
structure Parts where
  scheme : Option Scheme
  /-- The hosts, with what stands before them to log in. -/
  authority : List Char
  /-- What stands after the slash. -/
  name : Option (List Char)
  /-- What stands after the question mark. -/
  options : Option (List Char)
  authority_ne_nil : authority ≠ []
  slash_notMem : '/' ∉ authority
  mark_notMem : '?' ∉ authority
  mark_notMem_name : ∀ cs ∈ name, '?' ∉ cs

namespace Parts

variable (p : Parts)

def pathChars : List Char := p.name.elim [] ('/' :: ·)

def optionChars : List Char := p.options.elim [] ('?' :: ·)

def afterScheme : List Char := p.authority ++ (p.pathChars ++ p.optionChars)

def text : String := String.ofList (p.scheme.elim [] Scheme.chars ++ p.afterScheme)

/-- The name in the path, unless it is missing or empty. -/
def database : String :=
  match p.name with
  | some (c :: cs) => String.ofList (c :: cs)
  | _ => fallbackDatabase

/-- An address without a scheme does not begin like one with a scheme. -/
def IsUnmistakable : Prop := p.scheme = none → ∀ scheme : Scheme, ¬ scheme.chars <+: p.afterScheme

end Parts

/-! ### Schemes -/

theorem after?_append (s rest : List Char) : after? s (s ++ rest) = some rest := by
  induction s with
  | nil => cases rest <;> rfl
  | cons c s ih => simpa [after?] using ih

theorem after?_eq_none {s cs : List Char} (h : ¬ s <+: cs) : after? s cs = none := by
  induction s, cs using after?.induct with
  | case1 cs => exact absurd List.nil_prefix h
  | case2 c s => rfl
  | case3 s c cs ih =>
    rw [after?, if_pos rfl]
    exact ih fun hs => h (List.cons_prefix_cons.mpr ⟨rfl, hs⟩)
  | case4 c s d cs hcd => rw [after?, if_neg hcd]

theorem withoutScheme_eq (cs : List Char) :
    withoutScheme cs = ((after? Scheme.plain.chars cs).or (after? Scheme.seeded.chars cs)).getD cs := rfl

theorem withoutScheme_scheme (scheme : Scheme) (rest : List Char) :
    withoutScheme (scheme.chars ++ rest) = rest := by
  rw [withoutScheme_eq]
  cases scheme with
  | plain => rw [after?_append, Option.some_or, Option.getD_some]
  | seeded =>
    have hplain : after? Scheme.plain.chars (Scheme.seeded.chars ++ rest) = none :=
      after?_eq_none (by simp [Scheme.chars, Scheme.text])
    rw [hplain, after?_append, Option.none_or, Option.getD_some]

theorem withoutScheme_text {p : Parts} (h : p.IsUnmistakable) : withoutScheme p.text.toList = p.afterScheme := by
  rw [Parts.text, String.toList_ofList]
  cases hscheme : p.scheme with
  | some scheme => exact withoutScheme_scheme scheme p.afterScheme
  | none =>
    rw [Option.elim_none, List.nil_append, withoutScheme_eq, after?_eq_none (h hscheme .plain),
      after?_eq_none (h hscheme .seeded), Option.none_or, Option.getD_none]

/-! ### Names -/

/-- What stands between the first slash and the next question mark. -/
def pathName (cs : List Char) : List Char := ((cs.dropWhile (· ≠ '/')).drop 1).takeWhile (· ≠ '?')

theorem pathName_append {before : List Char} (h : '/' ∉ before) (rest : List Char) :
    pathName (before ++ rest) = pathName rest := by
  have hbefore : ∀ c ∈ before, decide (c ≠ '/') = true := fun c hc => decide_eq_true (ne_of_mem_of_not_mem hc h)
  rw [pathName, List.dropWhile_append_of_pos hbefore, pathName]

theorem pathName_slash (rest : List Char) : pathName ('/' :: rest) = rest.takeWhile (· ≠ '?') := rfl

theorem pathName_afterScheme (p : Parts) :
    pathName p.afterScheme = (p.name.or (p.options.map pathName)).getD [] := by
  rw [Parts.afterScheme, pathName_append p.slash_notMem, Parts.pathChars, Parts.optionChars]
  cases hname : p.name with
  | some name =>
    have hmark : '?' ∉ name := p.mark_notMem_name name hname
    have hall : ∀ c ∈ name, decide (c ≠ '?') = true := fun c hc => decide_eq_true (ne_of_mem_of_not_mem hc hmark)
    rw [Option.elim_some, List.cons_append, pathName_slash, List.takeWhile_append_of_pos hall]
    cases p.options with
    | none => simp
    | some options => simp
  | none =>
    cases p.options with
    | none => rfl
    | some options =>
      have hmark : '/' ∉ ['?'] := by decide
      exact pathName_append hmark options

/-- A name, or that of the database that is used without one. -/
def nameOrFallback : List Char → String
  | [] => fallbackDatabase
  | name => String.ofList name

theorem databaseName_eq (address : String) :
    databaseName address = nameOrFallback (pathName (withoutScheme address.toList)) := by
  unfold databaseName pathName
  cases (withoutScheme address.toList).dropWhile (· ≠ '/') with
  | nil => rfl
  | cons slash path =>
    rw [List.drop_one, List.tail_cons]
    dsimp only
    cases path.takeWhile (· ≠ '?') with
    | nil => rfl
    | cons c name => rfl

theorem nameOrFallback_eq_fallback_iff {name : List Char} :
    nameOrFallback name = fallbackDatabase ↔ name = [] ∨ name = fallbackDatabase.toList := by
  cases name with
  | nil => simp [nameOrFallback]
  | cons c name => simp [nameOrFallback, ← String.toList_inj]

theorem database_eq (p : Parts) : p.database = nameOrFallback (p.name.getD []) := by
  unfold Parts.database
  match p.name with
  | none => rfl
  | some [] => rfl
  | some (c :: name) => rfl

/-- The database is the one in the path just if there is a path, or else no slash in the options, or one after which
nothing stands or the name that is used without a path. -/
theorem databaseName_eq_database_iff (p : Parts) (h : p.IsUnmistakable) :
    databaseName p.text = p.database ↔
      (p.name = none → ∀ options ∈ p.options, pathName options = [] ∨ pathName options = fallbackDatabase.toList) := by
  rw [databaseName_eq, withoutScheme_text h, pathName_afterScheme, database_eq]
  cases p.name with
  | some name => simp
  | none =>
    cases p.options with
    | none => simp
    | some options =>
      have hfallback : nameOrFallback [] = fallbackDatabase := rfl
      simpa [hfallback] using nameOrFallback_eq_fallback_iff

/-- Slashes in the options after a path, in an address without a scheme. -/
theorem databaseName_beside_options :
    let p : Parts := ⟨none, "user@db:27017".toList, some "app".toList, some "tlsCAFile=/etc/ca.pem".toList,
      by simp, by simp, by simp, by simp⟩
    p.text = "user@db:27017/app?tlsCAFile=/etc/ca.pem" ∧ p.IsUnmistakable ∧ databaseName p.text = "app" := by
  intro p
  have h : p.IsUnmistakable := by
    intro _ scheme
    cases scheme with
    | plain => simp [p, Scheme.chars, Scheme.text, Parts.afterScheme]
    | seeded => simp [p, Scheme.chars, Scheme.text, Parts.afterScheme]
  have hname : databaseName p.text = p.database := (databaseName_eq_database_iff p h).mpr nofun
  exact ⟨by decide +kernel, h, hname.trans (by decide +kernel)⟩

/-- Options without a path, of which the rest after a slash is taken for the name. -/
theorem databaseName_in_options :
    ∃ p : Parts, p.text = "mongodb://localhost?tlsCAFile=/etc/ca.pem" ∧ p.database = "test" ∧
      databaseName p.text = "etc/ca.pem" := by
  refine ⟨⟨some .plain, "localhost".toList, none, some "tlsCAFile=/etc/ca.pem".toList, by simp, by simp, by simp,
    nofun⟩, ?_, rfl, ?_⟩
  · decide +kernel
  · decide +kernel

end DocClient.Address

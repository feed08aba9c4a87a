import DocClient.Error
import DocClient.Proofs.Ascending

/-! The text of failed batches. Main statement: `distinct_failures_listed`, by which a batch with several failures
lists each distinct text once, in the order in which the texts come first. -/
namespace DocClient

/-! ### Distinct texts -/

/-- The distinct texts of a list, each once, in the order in which they come first. -/
structure FirstsOf (all firsts : List String) : Prop where
  distinct : firsts.Nodup
  complete (text : String) : text ∈ firsts ↔ text ∈ all
  inOrder : firsts.Pairwise fun s t => all.idxOf s < all.idxOf t

theorem FirstsOf.nil : FirstsOf [] [] := ⟨List.nodup_nil, fun _ => Iff.rfl, List.Pairwise.nil⟩

/-- One more text comes last, unless it was there before. -/
theorem FirstsOf.concat {all firsts : List String} (h : FirstsOf all firsts) (text : String) :
    FirstsOf (all ++ [text]) (if text ∈ all then firsts else firsts ++ [text]) := by
  have hplace {s : String} (hs : s ∈ firsts) : (all ++ [text]).idxOf s = all.idxOf s :=
    List.idxOf_append_of_mem ((h.complete s).mp hs)
  have horder : firsts.Pairwise fun s t => (all ++ [text]).idxOf s < (all ++ [text]).idxOf t :=
    h.inOrder.imp_of_mem fun hs ht hlt => by rwa [hplace hs, hplace ht]
  split
  case isTrue hmem =>
    refine ⟨h.distinct, fun s => ?_, horder⟩
    rw [h.complete, List.mem_append, List.mem_singleton]
    exact (or_iff_left_of_imp fun hs => hs ▸ hmem).symm
  case isFalse hmem =>
    have hnew : text ∉ firsts := mt (h.complete text).mp hmem
    refine ⟨?distinct, fun s => ?complete, ?inOrder⟩
    case distinct => exact List.Nodup.append h.distinct (List.nodup_singleton text) (by simpa using hnew)
    case complete => rw [List.mem_append, List.mem_append, h.complete]
    case inOrder =>
      refine List.pairwise_append.mpr ⟨horder, List.pairwise_singleton _ _, fun s hs t ht => ?_⟩
      obtain rfl := List.mem_singleton.mp ht
      rw [hplace hs, List.idxOf_append_of_notMem hmem]
      exact Nat.lt_add_right _ (List.idxOf_lt_length_of_mem ((h.complete s).mp hs))

theorem firstsOf_eraseDups (all : List String) : FirstsOf all all.eraseDups := by
  induction all using List.reverseRecOn with
  | nil => exact FirstsOf.nil
  | append_singleton all text ih =>
    rw [Fields.eraseDups_concat]
    exact ih.concat text

/-! ### Texts of failures -/

/-- The text of a failure with its code in brackets. -/
def QueryError.coded (e : QueryError) : String := e.message ++ " (code " ++ toString e.code.toInt ++ ")"

theorem QueryError.coded_ne_message (e : QueryError) : e.coded ≠ e.message := by
  intro h
  have hlength := congrArg String.length h
  have hcode : " (code ".length = 7 := rfl
  unfold coded at hlength
  simp only [String.length_append] at hlength
  omega

theorem QueryError.text_iff (e : QueryError) :
    (e.text = e.coded ↔ e.code ≠ 0) ∧ (e.text = e.message ↔ e.code = 0) := by
  by_cases hcode : e.code = 0
  · have htext : e.text = e.message := if_pos hcode
    rw [htext]
    exact ⟨iff_of_false e.coded_ne_message.symm (not_not_intro hcode), iff_of_true rfl hcode⟩
  · have htext : e.text = e.coded := if_neg hcode
    rw [htext]
    exact ⟨iff_of_true rfl hcode, iff_of_false e.coded_ne_message hcode⟩

/-- The line of one text in the list of several. -/
def failureLine (text : String) : String := "  - " ++ text ++ "\n"

/-- A single failure is told by its own text, and several by a list of their distinct texts, under a heading and
in the order in which the texts come first. Each text has the code of its failure in brackets just if that is not
zero. -/
theorem distinct_failures_listed (cases : List BulkCase) :
    (∀ single, cases = [single] → bulkText cases = single.err.text) ∧
      (2 ≤ cases.length → ∃ texts, FirstsOf (cases.map fun c => c.err.text) texts ∧
        bulkText cases = "multiple errors in bulk operation:\n" ++ String.join (texts.map failureLine)) ∧
      ∀ c ∈ cases, (c.err.text = c.err.coded ↔ c.err.code ≠ 0) ∧ (c.err.text = c.err.message ↔ c.err.code = 0) := by
  refine ⟨?single, ?several, fun c _ => c.err.text_iff⟩
  case single =>
    rintro single rfl
    rfl
  case several =>
    intro hlength
    match cases with
    | first :: second :: rest => exact ⟨_, firstsOf_eraseDups _, rfl⟩

/-- Two codes under one message, and a message without a code that reads like one with it. -/
theorem distinct_failures_repeated :
    let cases : List BulkCase := [⟨0, .new 11000 "dup"⟩, ⟨3, .new 64 "dup"⟩, ⟨5, .new 0 "dup (code 11000)"⟩,
      ⟨7, .new 11000 "dup"⟩, ⟨-1, .new 0 "dup"⟩]
    2 ≤ cases.length ∧
      (∃ texts, FirstsOf (cases.map fun c => c.err.text) texts ∧
        bulkText cases = "multiple errors in bulk operation:\n" ++ String.join (texts.map failureLine)) ∧
      bulkText cases = "multiple errors in bulk operation:\n  - dup (code 11000)\n  - dup (code 64)\n  - dup\n" := by
  intro cases
  have hlength : 2 ≤ cases.length := by decide
  exact ⟨hlength, (distinct_failures_listed cases).2.1 hlength, by decide +kernel⟩

end DocClient

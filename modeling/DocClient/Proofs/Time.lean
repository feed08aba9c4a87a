import DocClient.Time.Basic

/-! Instants that are kept in milliseconds, in terms of their seconds and nanoseconds. -/
namespace DocClient.Time

variable {t : Time}

theorem inCalendar_iff {seconds : Int} :
    inCalendar seconds = true ↔ -8334601228800 ≤ seconds ∧ seconds ≤ 8210266876799 := by
  unfold inCalendar
  rw [Bool.and_eq_true, decide_eq_true_eq, decide_eq_true_eq]
  rfl

/-- The milliseconds of an instant of the calendar are counted exactly. -/
theorem toInt_millis (h : t.Valid) : (Int64.ofInt t.millis).toInt = t.millis := by
  obtain ⟨hcalendar, hnanos⟩ := h
  rw [inCalendar_iff] at hcalendar
  have hms : t.nanos / 1000000 < 2000 := by omega
  unfold millis
  exact Int64.toInt_ofInt_of_le (by omega) (by omega)

/-- The whole milliseconds of an instant. Those of a leap second run on into the next second. -/
def wholeMillis (t : Time) : Time :=
  ⟨t.seconds + (t.nanos / 1000000000 : Nat), t.nanos % 1000000000 / 1000000 * 1000000⟩

/-- The whole milliseconds of an instant, or the last instant of the calendar if they run past it. -/
def keptMillis (t : Time) : Time := if inCalendar t.wholeMillis.seconds then t.wholeMillis else latest

/-- An instant of the calendar is counted in milliseconds, and kept so. -/
theorem ofMillisClamped_millis (h : t.Valid) : ofMillisClamped t.millis = t.keptMillis := by
  obtain ⟨hcalendar, hnanos⟩ := h
  have hseconds : t.millis / 1000 = t.wholeMillis.seconds := by
    unfold millis wholeMillis
    dsimp only
    omega
  have hrest : (t.millis % 1000).toNat * 1000000 = t.wholeMillis.nanos := by
    unfold millis wholeMillis
    dsimp only
    omega
  unfold ofMillisClamped ofMillis? keptMillis
  rw [hseconds]
  by_cases hin : inCalendar t.wholeMillis.seconds = true
  · rw [if_pos hin, if_pos hin]
    unfold ofMillis
    rw [hseconds, hrest]
  · rw [if_neg hin, if_neg hin]
    -- Rounding a valid instant can leave the calendar at its end only.
    have hpos : ¬ t.millis < 0 := by
      intro hneg
      apply hin
      rw [inCalendar_iff] at hcalendar ⊢
      unfold wholeMillis at hseconds ⊢
      dsimp only at hseconds ⊢
      omega
    exact if_neg hpos

/-- Outside of leap seconds the nanoseconds are cut to milliseconds. -/
theorem keptMillis_eq (h : t.Valid) (hnanos : t.nanos < 1000000000) :
    t.keptMillis = ⟨t.seconds, t.nanos / 1000000 * 1000000⟩ := by
  have hwhole : t.wholeMillis = ⟨t.seconds, t.nanos / 1000000 * 1000000⟩ := by
    unfold wholeMillis
    rw [Nat.div_eq_of_lt hnanos, Nat.mod_eq_of_lt hnanos]
    simp
  rw [keptMillis, hwhole, if_pos h.1]

end DocClient.Time

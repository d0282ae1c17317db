/-!
# Attempts

Where the result of attempts made one after the other comes from: success from the success of each of them, and an error from one
of them. An attempt is `Settled` by the list of all that is wrong when it fails with the first of these things; so are two attempts
made one after the other, by both lists (`Settled.bind`).
-/

namespace Except

variable {ε ε' α β : Type}

/-- Two attempts succeed when the first does, and the second with what it gave. -/
theorem exists_of_bind_eq_ok {first : Except ε α} {second : α → Except ε β} {b : β} (h : first >>= second = .ok b) :
    ∃ a, first = .ok a ∧ second a = .ok b := by
  cases first with
  | error e => cases h
  | ok a => exact ⟨a, rfl, h⟩

/-- Two attempts fail when the first does, or the second with what it gave. -/
theorem bind_eq_error {first : Except ε α} {second : α → Except ε β} {e : ε} (h : first >>= second = .error e) :
    first = .error e ∨ ∃ a, first = .ok a ∧ second a = .error e := by
  cases first with
  | error e' =>
    cases h
    exact .inl rfl
  | ok a => exact .inr ⟨a, rfl, h⟩

/-- An attempt succeeds whatever its errors are turned into. -/
theorem eq_ok_of_mapError {attempt : Except ε α} {f : ε → ε'} {a : α} (h : attempt.mapError f = .ok a) : attempt = .ok a := by
  cases attempt with
  | error e => cases h
  | ok a' =>
    cases h
    rfl

/-- An error that was turned into another comes from the attempt. -/
theorem exists_of_mapError_eq_error {attempt : Except ε α} {f : ε → ε'} {e : ε'} (h : attempt.mapError f = .error e) :
    ∃ e', attempt = .error e' ∧ e = f e' := by
  cases attempt with
  | error e' =>
    cases h
    exact ⟨e', rfl, rfl⟩
  | ok a => cases h

/-- An attempt fails with the first of some faults, and gives something good when there is none. -/
def Settled (attempt : Except ε α) (faults : List ε) (Good : α → Prop) : Prop :=
  match faults with
  | [] => ∃ a, attempt = .ok a ∧ Good a
  | fault :: _ => attempt = .error fault

namespace Settled

variable {attempt : Except ε α} {faults : List ε} {Good : α → Prop}

/-- The faults of an attempt come before those of the next one. -/
theorem bind {second : α → Except ε β} {others : List ε} {Better : β → Prop} (h : attempt.Settled faults Good)
    (hsecond : ∀ a, Good a → (second a).Settled others Better) : (attempt >>= second).Settled (faults ++ others) Better := by
  cases faults with
  | nil =>
    obtain ⟨a, rfl, ha⟩ := h
    exact hsecond a ha
  | cons fault rest =>
    have herror : attempt = .error fault := h
    rw [herror]
    rfl

/-- What is good enough for one purpose may be so for another. -/
theorem imp {Better : α → Prop} (h : attempt.Settled faults Good) (himp : ∀ a, Good a → Better a) :
    attempt.Settled faults Better := by
  cases faults with
  | nil =>
    obtain ⟨a, hattempt, ha⟩ := h
    exact ⟨a, hattempt, himp a ha⟩
  | cons fault rest => exact h

/-- An attempt succeeds when nothing is wrong. -/
theorem exists_ok_iff (h : attempt.Settled faults Good) : (∃ a, attempt = .ok a) ↔ faults = [] := by
  cases faults with
  | nil =>
    obtain ⟨a, hattempt, -⟩ := h
    exact ⟨fun _ => rfl, fun _ => ⟨a, hattempt⟩⟩
  | cons fault rest =>
    have herror : attempt = .error fault := h
    simp [herror]

/-- What an attempt gives is good. -/
theorem good (h : attempt.Settled faults Good) {a : α} (hattempt : attempt = .ok a) : Good a := by
  cases faults with
  | nil =>
    obtain ⟨a', hok, ha'⟩ := h
    rw [hok] at hattempt
    cases hattempt
    exact ha'
  | cons fault rest =>
    have herror : attempt = .error fault := h
    rw [herror] at hattempt
    cases hattempt

/-- The error of an attempt is the first fault. -/
theorem eq_error_iff (h : attempt.Settled faults Good) (e : ε) : attempt = .error e ↔ faults.head? = some e := by
  cases faults with
  | nil =>
    obtain ⟨a, hattempt, -⟩ := h
    simp [hattempt]
  | cons fault rest =>
    have herror : attempt = .error fault := h
    simp [herror]

end Settled

end Except

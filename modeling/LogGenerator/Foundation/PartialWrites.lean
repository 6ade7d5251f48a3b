import Mathlib.Tactic

/-!
# Writing with partial writes

A call that writes takes as many bytes as it likes. The loop around it offers what is left
until everything is taken, and gives up when a call fails or takes nothing.
-/

namespace LogGenerator

/-- What a writing call answers. A call that fails may have taken something all the same. -/
inductive WriteAnswer (ε : Type*) where
  | wrote (count : ℕ)
  | failed (count : ℕ) (error : ε)

variable {β ε : Type*}

/-- Offers at most `limit` bytes a call, and returns what has been taken; `answer k` is that of
call `k`. -/
def writeLoop (limit : ℕ) (stalled : ε) (answer : ℕ → WriteAnswer ε) (call : ℕ)
    (payload : List β) : Except ε Unit × List β :=
  if payload.length = 0 then (.ok (), [])
  else
    let offered := min payload.length limit
    match answer call with
    | .failed count error => (.error error, payload.take (min count offered))
    | .wrote count =>
      let taken := min count offered
      if taken = 0 then (.error stalled, [])
      else
        let rest := writeLoop limit stalled answer (call + 1) (payload.drop taken)
        (rest.1, payload.take taken ++ rest.2)
termination_by payload.length
decreasing_by
  simp only [List.length_drop]
  omega

/-- What has been taken is a beginning of the payload, and all of it when the loop ends well. -/
theorem writeLoop_spec (limit : ℕ) (stalled : ε) (answer : ℕ → WriteAnswer ε) (call : ℕ)
    (payload : List β) :
    (writeLoop limit stalled answer call payload).2 <+: payload ∧
    ((writeLoop limit stalled answer call payload).1 = .ok () →
      (writeLoop limit stalled answer call payload).2 = payload) := by
  fun_induction writeLoop limit stalled answer call payload with
  | case1 call payload hempty =>
    rw [List.length_eq_zero_iff] at hempty
    exact ⟨List.nil_prefix, fun _ => hempty.symm⟩
  | case2 call payload hempty offered count error hanswer =>
    exact ⟨List.take_prefix _ _, fun h => by cases h⟩
  | case3 call payload hempty offered count hanswer taken hzero =>
    exact ⟨List.nil_prefix, fun h => by cases h⟩
  | case4 call payload hempty offered count hanswer taken hzero rest ih =>
    obtain ⟨⟨left, hleft⟩, hall⟩ := ih
    refine ⟨⟨left, ?_⟩, fun hok => ?_⟩
    · dsimp only
      rw [List.append_assoc, hleft, List.take_append_drop]
    · dsimp only at hok ⊢
      rw [hall hok, List.take_append_drop]

end LogGenerator

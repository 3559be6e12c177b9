import LetsEmbed.Proofs.AccountInvariant

/-! What a credit does to a balance near the top of its range. The sum is an `i64` and
would wrap, but the object takes its numbers from JavaScript and leaves them there, and
these end long before. -/

namespace LetsEmbed.Account
open Rust Systems

/-- `Number.MAX_SAFE_INTEGER` -/
def maxSafe : Int := 2 ^ 53 - 1

/-- What the worker crate passes between an `i64` and a JavaScript number, in the body of
a request as in storage. Anything else is an error on the way in and on the way out. -/
def JsSafe (n : Int) : Prop := -maxSafe ≤ n ∧ n ≤ maxSafe

instance (n : Int) : Decidable (JsSafe n) := inferInstanceAs (Decidable (_ ∧ _))

/-- `POST /credit`, from the body that is read to the balance that is put. The balance is
put before the marker, so an error leaves the storage as it is. -/
def fetchCredit (s : Storage) (req : CreditReq) : Option Reply × Storage :=
  if JsSafe req.points ∧ JsSafe s.getBalance ∧ JsSafe (credit s req).2.getBalance then
    (some (credit s req).1, (credit s req).2)
  else (none, s)

variable {s : Storage} {req : CreditReq}

theorem credit_getBalance (fresh : s.credit req.key = none) :
    (credit s req).2.getBalance = max (i64 (s.getBalance + req.points)) 0 := by
  rw [credit, if_neg (by simp [fresh])]
  rfl

theorem credit_marked (fresh : s.credit req.key = none) : (credit s req).2.credit req.key = some true := by
  rw [credit, if_neg (by simp [fresh])]
  exact Function.update_self ..

section Fresh
variable (fresh : s.credit req.key = none) (nonneg : 0 ≤ s.getBalance) (points : 0 ≤ req.points)
include fresh nonneg points

/-- Where the sum fits, nothing wraps and nothing is cut off. -/
theorem credit_adds (fits : s.getBalance + req.points ≤ i64Max) :
    (credit s req).2.getBalance = s.getBalance + req.points := by
  have sum : InI64 (s.getBalance + req.points) := ⟨by omega, fits⟩
  rw [credit_getBalance fresh, i64_of_fits sum, max_eq_left (by omega)]

theorem fetchCredit_applied (below : s.getBalance + req.points ≤ maxSafe) :
    fetchCredit s req = (some (credit s req).1, (credit s req).2) := by
  have narrow : maxSafe ≤ i64Max := by decide
  have adds := credit_adds fresh nonneg points (by omega)
  have bound (n : Int) (low : 0 ≤ n) (high : n ≤ maxSafe) : JsSafe n := ⟨by omega, high⟩
  rw [fetchCredit, if_pos]
  rw [adds]
  exact ⟨bound _ points (by omega), bound _ nonneg (by omega), bound _ (by omega) below⟩

theorem fetchCredit_refused (above : maxSafe < s.getBalance + req.points) : fetchCredit s req = (none, s) := by
  rw [fetchCredit, if_neg]
  rintro ⟨read, stored, put⟩
  have twice : maxSafe + maxSafe ≤ i64Max := by decide
  have adds := credit_adds fresh nonneg points (by have := read.2; have := stored.2; omega)
  rw [adds] at put
  have high := put.2
  omega

end Fresh

/-- A credit under a fresh key adds its points exactly, as long as the sum is a safe
integer; beyond it is refused, and nothing has changed. The balance never falls. -/
theorem fetchCredit_exact (s : Storage) (req : CreditReq) (fresh : s.credit req.key = none) (nonneg : 0 ≤ s.getBalance)
    (points : 0 ≤ req.points) :
    (s.getBalance + req.points ≤ maxSafe →
      (fetchCredit s req).1 = some (.balance ⟨min (s.getBalance + req.points) i64Max, true⟩) ∧
        (fetchCredit s req).2.getBalance = min (s.getBalance + req.points) i64Max ∧
        (fetchCredit s req).2.credit req.key = some true) ∧
      (maxSafe < s.getBalance + req.points → fetchCredit s req = (none, s)) ∧
      s.getBalance ≤ (fetchCredit s req).2.getBalance := by
  have narrow : maxSafe ≤ i64Max := by decide
  have applied (below : s.getBalance + req.points ≤ maxSafe) :
      (fetchCredit s req).2.getBalance = s.getBalance + req.points := by
    rw [fetchCredit_applied fresh nonneg points below]
    exact credit_adds fresh nonneg points (by omega)
  refine ⟨fun below => ?_, fetchCredit_refused fresh nonneg points, ?_⟩
  · have reply : (credit s req).1 = .balance ⟨(credit s req).2.getBalance, true⟩ := by
      rw [credit, if_neg (by simp [fresh])]
      rfl
    rw [applied below, min_eq_left (by omega), fetchCredit_applied fresh nonneg points below, reply,
      credit_adds fresh nonneg points (by omega)]
    exact ⟨rfl, rfl, credit_marked fresh⟩
  · by_cases below : s.getBalance + req.points ≤ maxSafe
    · rw [applied below]
      omega
    · rw [fetchCredit_refused fresh nonneg points (by omega)]

/-- The largest credit there is does not come through. -/
theorem largest_refused :
    let s := (account.play ([], {}) [⟨0, .init "0xa"⟩]).2
    s.getBalance = 3_000 ∧ (fetchCredit s ⟨i64Max, "admin:token", ""⟩).1 = none ∧
      (fetchCredit s ⟨i64Max, "admin:token", ""⟩).2.getBalance = 3_000 := by
  decide +kernel

theorem fetchCredit_exact_ordinary :
    let s := (account.play ([], {}) [⟨0, .init "0xa"⟩]).2
    (fetchCredit s ⟨500, "admin:token", ""⟩).2.getBalance = min (3_000 + 500) i64Max := by
  intro s
  have adds := (fetchCredit_exact s ⟨500, "admin:token", ""⟩ rfl (by decide) (by decide)).1 (by decide)
  exact adds.2.1

end LetsEmbed.Account

import Mathlib.Data.Nat.Log
import Sherry.Verif.StringEdits

/-!
# How often appending allocates

`sdsMakeRoomFor` asks for twice the length, or for a megabyte more than it. The length that the
room no longer suffices for pays for the request: from one request to the next it doubles up to a
megabyte, and grows by a megabyte from there.
-/

namespace Sherry

open Std.Do

set_option mvcgen.warning false

variable {A : Allocator} {s r : SdsString} {m₀ m : Memory} {n k room : Nat}
  {text : List UInt8}

/-- How many requests a length pays for. -/
def requestsFor (n : Nat) : Nat := 1 + Nat.log 2 (min n sdsMaxPrealloc) + n / sdsMaxPrealloc

/-- A longer string pays for as many requests. -/
theorem requestsFor_mono {q : Nat} (longer : n ≤ q) : requestsFor n ≤ requestsFor q := by
  have doubled : Nat.log 2 (min n sdsMaxPrealloc) ≤ Nat.log 2 (min q sdsMaxPrealloc) :=
    Nat.log_mono_right (min_le_min_right _ longer)
  have added : n / sdsMaxPrealloc ≤ q / sdsMaxPrealloc := Nat.div_le_div_right longer
  unfold requestsFor
  omega

/-- A length that needs more than the room asked for pays for one more request. -/
theorem requestsFor_prealloc {q : Nat} (small : n < 2 ^ 63) (positive : 0 < n)
    (short : prealloc n < q) : requestsFor n + 1 ≤ requestsFor q := by
  rw [prealloc_eq (headroom_of_small small)] at short
  unfold requestsFor
  split_ifs at short with below
  · have power : sdsMaxPrealloc = 2 ^ 20 := by decide
    have doubled : Nat.log 2 n + 1 ≤ Nat.log 2 (min q sdsMaxPrealloc) := by
      by_cases within : q ≤ sdsMaxPrealloc
      · rw [min_eq_left within, ← Nat.log_mul_base Nat.one_lt_two positive.ne']
        exact Nat.log_mono_right short.le
      · rw [min_eq_right (not_le.mp within).le, power, Nat.log_pow Nat.one_lt_two]
        exact Nat.log_lt_of_lt_pow positive.ne' (power ▸ below)
    have added : n / sdsMaxPrealloc ≤ q / sdsMaxPrealloc := Nat.div_le_div_right (by omega)
    rw [min_eq_left below.le]
    omega
  · have full : min q sdsMaxPrealloc = sdsMaxPrealloc := by omega
    have full' : min n sdsMaxPrealloc = sdsMaxPrealloc := by omega
    have added : n / sdsMaxPrealloc + 1 ≤ q / sdsMaxPrealloc := by
      rw [← Nat.add_div_right n (by decide : 0 < sdsMaxPrealloc)]
      exact Nat.div_le_div_right short.le
    rw [full, full']
    omega

/-- A string whose header tells of its room. -/
def SdsString.HasRoom (s : SdsString) (room : Nat) : Prop :=
  ∃ type len buf, Framed s type len room buf ∧ type ≠ .type5

/-- What is free of the room. -/
theorem SdsString.HasRoom.sdsavail_eq (has : s.HasRoom room) :
    sdsavail s = room - s.content.length := by
  obtain ⟨type, len, buf, framed, wide⟩ := has
  rw [framed.sdsavail_eq, if_neg wide, framed.length_content]

/-- The requests that were made while a string grew are paid for by a length it had. -/
def Paid (requests : Nat) (s : SdsString) : Prop :=
  requests = 0 ∨ ∃ n, 0 < n ∧ n ≤ s.content.length ∧ requests ≤ requestsFor n ∧
    ∃ room, s.HasRoom room ∧ prealloc n ≤ room

/-- What was paid for by a shorter length is paid for. -/
theorem Paid.bound (paid : Paid k s) : k ≤ requestsFor s.content.length := by
  rcases paid with rfl | ⟨n, -, shorter, enough, -⟩
  · exact Nat.zero_le _
  · exact enough.trans (requestsFor_mono shorter)

/-- Appending to a string makes a request only when its length pays for one. -/
theorem MadeRoom.paid (made : MadeRoom m₀ s text.length m r) (paid : Paid k s) (valid : s.Valid)
    (small : s.content.length + text.length < 2 ^ 63) :
    m₀.requests ≤ m.requests ∧
      Paid (m.requests - m₀.requests + k) (r.appended text) := by
  obtain ⟨type', room', buf', framed', enough', -, content⟩ := made.framed valid small
  have appended := (framed'.appended enough').2
  cases made with
  | already enough =>
    refine ⟨by omega, ?_⟩
    rw [Nat.sub_self, Nat.zero_add]
    rcases paid with rfl | ⟨n, positive, shorter, requests, room, has, roomy⟩
    · exact .inl rfl
    · obtain ⟨type, len, buf, framed, wide⟩ := has
      have avail := SdsString.HasRoom.sdsavail_eq ⟨type, len, buf, framed, wide⟩
      have length := framed.length_content
      have within := framed.within
      obtain ⟨⟨buf, final⟩, -⟩ := framed.appended (show len + text.length ≤ room by omega)
      refine .inr ⟨n, positive, ?_, requests, room, ⟨type, _, buf, final, wide⟩, roomy⟩
      rw [appended, List.length_append]
      omega
  | moved short moved =>
    have count := moved.requests
    refine ⟨by omega, .inr ⟨s.content.length + text.length, by omega, ?_, ?_, ?_⟩⟩
    · rw [appended, content, List.length_append]
    · rw [count, Nat.add_sub_cancel_left, Nat.add_comm]
      rcases paid with rfl | ⟨n, positive, shorter, requests, room, has, roomy⟩
      · exact (Nat.le_add_right 1 _).trans (Nat.le_add_right _ _)
      · rw [has.sdsavail_eq] at short
        have more := requestsFor_prealloc (n := n) (q := s.content.length + text.length)
          (by omega) positive (by omega)
        omega
    · obtain ⟨buf, filled⟩ := moved.filled
      have framed := filled.framed (moved.ending.trans (SdsString.valid_iff.mp valid).2)
      obtain ⟨⟨buf, final⟩, -⟩ := framed.appended (prealloc_bounds (headroom_of_small small)).1
      exact ⟨_, ⟨_, _, buf, final, roomType_wide _⟩, le_rfl⟩

/-- What holds while texts are appended one after the other. -/
structure Appending (m₀ : Memory) (s : SdsString) (before : List (List UInt8)) (r : SdsString)
    (m : Memory) : Prop extends Becomes m₀ m s r (s.content ++ before.flatten) where
  /-- Requests are counted from the start. -/
  since : m₀.requests ≤ m.requests
  /-- Every request was paid for. -/
  paid : Paid (m.requests - m₀.requests) r

/-- Appending texts one after the other makes at most the requests that the final length pays for:
one for each doubling up to a megabyte, and one for each megabyte from there. -/
theorem appends_requests (ts : List (List UInt8)) (valid : s.Valid)
    (small : (s.content ++ ts.flatten).length < 2 ^ 63) :
    ⦃fun m => ⌜m = m₀⌝⦄
    ts.foldlM (sdscatlen A) s
    ⦃post⟨fun r m => ⌜Becomes m₀ m s r (s.content ++ ts.flatten) ∧
        m.requests ≤ m₀.requests + requestsFor (s.content ++ ts.flatten).length⌝,
      fun e m => ⌜e = .outOfMemory ∧ A.Refuses ∧ ∃ held, m₀.Trades m [s.base] [held]⌝⟩⦄ := by
  have start : Appending m₀ s [] s m₀ :=
    ⟨⟨valid, by simp, .refl _ _⟩, le_rfl, .inl (Nat.sub_self _)⟩
  refine Allocating.weaken (Allocating.fold ?step start) ?_ fun _ _ refused => refused
  case step =>
    intro before t after r m₁ whole appending
    have short : r.content.length + t.length < 2 ^ 63 := by
      have parts := congrArg (fun l : List (List UInt8) => l.flatten.length) whole
      simp only [List.flatten_append, List.flatten_cons, List.length_append] at parts small
      rw [appending.content, List.length_append]
      omega
    refine Allocating.weaken (sdscatlen_made m₁ appending.valid short) ?_ ?_
    · rintro _ m ⟨q, made, rfl⟩
      obtain ⟨later, paid⟩ := made.paid appending.paid appending.valid short
      obtain ⟨type, room, buf, framed, enough, -, content⟩ := made.framed appending.valid short
      obtain ⟨⟨buf, final⟩, appended⟩ := framed.appended enough
      have since := appending.since
      refine ⟨⟨⟨_, _, _, _, final⟩, ?_, ?_⟩, since.trans later, ?_⟩
      · rw [appended, content, appending.content]
        simp
      · rw [appended_base]
        exact appending.trades.trans (made.becomes appending.valid).trades
      · rwa [show m.requests - m₀.requests =
          m.requests - m₁.requests + (m₁.requests - m₀.requests) by omega]
    · exact fun e m refused => ⟨refused.fault, refused.refuses, r.base,
        appending.trades.trans refused.trades⟩
  · intro r m appending
    have bound := appending.paid.bound
    rw [appending.content] at bound
    exact ⟨appending.toBecomes, by have := appending.since; omega⟩

/-- Appending twice to a string in block 0 makes at most two requests. -/
theorem appends_requests_twice :
    ∃ r m, Allocating.exec ([[98], [99, 100]].foldlM (sdscatlen .zeros) .sample)
        { requests := 1, drawn := [0] } = (.ok r, m) ∧
      r.content = [97, 98, 99, 100] ∧ m.requests ≤ 1 + requestsFor 4 := by
  have appends := @appends_requests .zeros _ { requests := 1, drawn := [0] } [[98], [99, 100]]
    SdsString.sample_valid (by decide)
  obtain ⟨r, m, ran, becomes, few⟩ := Allocating.returns appends fun _ _ refused =>
    Allocator.zeros_answers refused.2.1
  exact ⟨r, m, ran, becomes.content, few⟩

end Sherry

import Sherry.Verif.StringSplits

/-!
# Quoted arguments

`sdscatrepr` writes any bytes as one quoted argument, and `sdssplitargs` reads a line of arguments.
The grammar of a line says what it accepts and which bytes the arguments stand for. It never reads
behind the terminator of the line, and gives back every argument when the line is not accepted. A
line of arguments that `sdscatrepr` wrote is read back.
-/

namespace Sherry

open Std.Do

set_option mvcgen.warning false

variable {A : Allocator} {m₀ m : Memory} {s : SdsString} {text value rest after : List UInt8}
  {mode : ArgMode} {c : UInt8}

/-- A closing quote is followed by a blank or by nothing. -/
def Follows (t : List UInt8) : Prop := ∀ c ∈ t.head?, isspace c

instance (t : List UInt8) : Decidable (Follows t) :=
  inferInstanceAs (Decidable (∀ c ∈ t.head?, isspace c))

/-- Bytes behind a backslash that make it a hexadecimal escape. -/
def HexTail (t : List UInt8) : Prop :=
  ∃ h l rest, t = 'x'.toUInt8 :: h :: l :: rest ∧ isHexDigit h ∧ isHexDigit l

/-- The rest of an argument, what it stands for and what follows it on the line. -/
inductive Reads : ArgMode → List UInt8 → List UInt8 → List UInt8 → Prop
  /-- The line ends. -/
  | finish : Reads .plain [] [] []
  /-- A blank ends the argument. -/
  | blank {c : UInt8} {t : List UInt8} (ends : endsToken c) : Reads .plain (c :: t) [] t
  /-- Any other byte stands for itself. -/
  | plain {c : UInt8} {t v rest : List UInt8} (goes : ¬ endsToken c) (single : c ≠ '\''.toUInt8)
    (double : c ≠ '"'.toUInt8) (later : Reads .plain t v rest) : Reads .plain (c :: t) (c :: v) rest
  /-- A quote is opened. -/
  | openDouble {t v rest : List UInt8} (later : Reads .double t v rest) :
    Reads .plain ('"'.toUInt8 :: t) v rest
  /-- A quote is opened. -/
  | openSingle {t v rest : List UInt8} (later : Reads .single t v rest) :
    Reads .plain ('\''.toUInt8 :: t) v rest
  /-- The quotes are closed. -/
  | closeDouble {t : List UInt8} (follows : Follows t) : Reads .double ('"'.toUInt8 :: t) [] t
  /-- A hexadecimal escape stands for the byte. -/
  | hex {h l : UInt8} {t v rest : List UInt8} (high : isHexDigit h) (low : isHexDigit l)
    (later : Reads .double t v rest) :
    Reads .double ('\\'.toUInt8 :: 'x'.toUInt8 :: h :: l :: t)
      ((hexDigitToInt h * 16 + hexDigitToInt l) :: v) rest
  /-- Another escape stands for what it names. -/
  | escape {c : UInt8} {t v rest : List UInt8} (short : ¬ HexTail (c :: t))
    (later : Reads .double t v rest) : Reads .double ('\\'.toUInt8 :: c :: t) (unescape c :: v) rest
  /-- Any other byte in double quotes stands for itself. -/
  | double {c : UInt8} {t v rest : List UInt8} (slash : c ≠ '\\'.toUInt8) (quote : c ≠ '"'.toUInt8)
    (later : Reads .double t v rest) : Reads .double (c :: t) (c :: v) rest
  /-- The quotes are closed. -/
  | closeSingle {t : List UInt8} (follows : Follows t) : Reads .single ('\''.toUInt8 :: t) [] t
  /-- An escaped quote in single quotes. -/
  | quote {t v rest : List UInt8} (later : Reads .single t v rest) :
    Reads .single ('\\'.toUInt8 :: '\''.toUInt8 :: t) ('\''.toUInt8 :: v) rest
  /-- Any other byte in single quotes stands for itself. -/
  | single {c : UInt8} {t v rest : List UInt8} (quote : c ≠ '\''.toUInt8)
    (slash : c = '\\'.toUInt8 → t.head? ≠ some '\''.toUInt8) (later : Reads .single t v rest) :
    Reads .single (c :: t) (c :: v) rest

/-- A line and the arguments on it. -/
inductive Line : List UInt8 → List (List UInt8) → Prop
  /-- Nothing but blanks. -/
  | blanks {t : List UInt8} (blank : ∀ c ∈ t, isspace c) : Line t []
  /-- An argument behind blanks, and then others. -/
  | cons {front t v rest : List UInt8} {c : UInt8} {vs : List (List UInt8)}
    (blank : ∀ c ∈ front, isspace c) (first : ¬ isspace c) (reads : Reads .plain (c :: t) v rest)
    (later : Line rest vs) : Line (front ++ c :: t) (v :: vs)

/-- The line goes on with a hexadecimal escape. -/
def hexEscape : List UInt8 → Bool
  | a :: x :: h :: l :: _ =>
    a == '\\'.toUInt8 && x == 'x'.toUInt8 && isHexDigit h && isHexDigit l
  | _ => false

/-- What a round of the loop for an argument does with the rest of the line. -/
def stepOf : ArgMode → List UInt8 → ArgStep
  | .plain, [] => .done
  | .plain, c :: _ =>
    if endsToken c then .done
    else if c = '"'.toUInt8 then .enter .double
    else if c = '\''.toUInt8 then .enter .single
    else .put c 0
  | .double, [] => .err
  | .double, c :: t =>
    if hexEscape (c :: t) then
      .put (hexDigitToInt (t.getD 1 0) * 16 + hexDigitToInt (t.getD 2 0)) 3
    else if c = '\\'.toUInt8 ∧ t ≠ [] then .put (unescape (t.headD 0)) 1
    else if c = '"'.toUInt8 then if Follows t then .done else .err
    else .put c 0
  | .single, [] => .err
  | .single, c :: t =>
    if c = '\\'.toUInt8 ∧ t.head? = some '\''.toUInt8 then .put '\''.toUInt8 1
    else if c = '\''.toUInt8 then if Follows t then .done else .err
    else .put c 0

@[simp] theorem peek_zero (c : UInt8) (p : List UInt8) : peek (c :: p) 0 = pure c := rfl

@[simp] theorem peek_succ (c : UInt8) (p : List UInt8) (i : Nat) :
    peek (c :: p) (i + 1) = peek p i := rfl

/-- The test of what follows a closing quote. -/
theorem follows_cons {x : UInt8} {t : List UInt8} : Follows (x :: t) ↔ isspace x := by
  simp [Follows]

/-- What follows a closing quote decides. -/
theorem closeQuote_eq (c : UInt8) (t after : List UInt8) (whole : 0 ∉ t) :
    closeQuote (c :: (t ++ 0 :: after)) = pure (if Follows t then .done else .err) := by
  cases t with
  | nil => simp [closeQuote, Follows]
  | cons x t =>
    have more : x ≠ 0 := fun zero => whole (zero ▸ List.mem_cons_self)
    rw [closeQuote, List.cons_append, peek_succ, peek_zero, pure_bind]
    simp only [follows_cons]
    by_cases blank : isspace x = true
    · rw [if_neg (fun wrong => wrong.2 blank), if_pos blank]
    · rw [if_pos ⟨more, blank⟩, if_neg blank]

/-- A test of a byte that is known. -/
theorem test_pure (c : UInt8) (test : UInt8 → Bool) :
    ((pure c : SdsM UInt8) <&> test) = pure (test c) := rfl

/-- The second test is made when the first one holds. -/
theorem test_and (b : Bool) (other : SdsM Bool) :
    ((pure b : SdsM Bool) <&&> other) = if b then other else pure false := by
  cases b <;> rfl

/-- The test for a hexadecimal escape stops at the terminator. -/
theorem isHexEscape_eq (t after : List UInt8) :
    isHexEscape (t ++ 0 :: after) = pure (hexEscape t) := by
  have zero : isHexDigit 0 = false := by decide
  have slash : ((0 : UInt8) == '\\'.toUInt8) = false := by decide
  have letter : ((0 : UInt8) == 'x'.toUInt8) = false := by decide
  rcases t with _ | ⟨a, _ | ⟨x, _ | ⟨h, _ | ⟨l, t⟩⟩⟩⟩ <;>
    simp only [isHexEscape, List.nil_append, List.cons_append, peek_zero, peek_succ, test_and,
      test_pure, slash, letter, zero, hexEscape]
  case cons.cons.cons.cons =>
    cases a == '\\'.toUInt8 <;> cases x == 'x'.toUInt8 <;> cases isHexDigit h <;> rfl
  all_goals simp

/-- A hexadecimal escape has both of its digits. -/
theorem hexEscape_digits (escape : hexEscape text) :
    ∃ h l rest, text = '\\'.toUInt8 :: 'x'.toUInt8 :: h :: l :: rest ∧ isHexDigit h ∧
      isHexDigit l := by
  rcases text with _ | ⟨a, _ | ⟨x, _ | ⟨h, _ | ⟨l, rest⟩⟩⟩⟩
  case cons.cons.cons.cons =>
    simp only [hexEscape, Bool.and_eq_true, beq_iff_eq] at escape
    obtain ⟨⟨⟨rfl, rfl⟩, high⟩, low⟩ := escape
    exact ⟨h, l, rest, rfl, high, low⟩
  all_goals cases escape

/-- The branch for double quotes. -/
theorem doubleStep_eq (t after : List UInt8) (whole : 0 ∉ t) :
    doubleStep (t ++ 0 :: after) = pure (stepOf .double t) := by
  rw [doubleStep, isHexEscape_eq, pure_bind]
  by_cases escape : hexEscape t = true
  · rw [if_pos escape]
    obtain ⟨h, l, rest, rfl, -⟩ := hexEscape_digits escape
    simp [stepOf, escape]
  · rw [if_neg escape]
    cases t with
    | nil => rfl
    | cons c t =>
      have more : c ≠ 0 := fun zero => whole (zero ▸ List.mem_cons_self)
      have closed := closeQuote_eq c t after fun member => whole (List.mem_cons_of_mem c member)
      have next : (peek (c :: (t ++ 0 :: after)) 1 <&> (· != 0)) = pure (decide (t ≠ [])) := by
        cases t with
        | nil => rfl
        | cons x t =>
          have tail : x ≠ 0 := fun zero => whole (zero ▸ List.mem_cons_of_mem c List.mem_cons_self)
          have differs : (x != 0) = true := bne_iff_ne.mpr tail
          simp [differs]
      rw [List.cons_append, next, peek_zero, test_pure, test_and, stepOf, if_neg escape]
      by_cases slash : c = '\\'.toUInt8
      · by_cases last : t = []
        · subst slash last
          rfl
        · obtain ⟨x, t, rfl⟩ := List.exists_cons_of_ne_nil last
          simp [slash]
      · simp only [slash, beq_iff_eq, if_false, pure_bind, Bool.false_eq_true, false_and, closed,
          more]
        split_ifs <;> rfl

/-- The branch for single quotes. -/
theorem singleStep_eq (t after : List UInt8) (whole : 0 ∉ t) :
    singleStep (t ++ 0 :: after) = pure (stepOf .single t) := by
  cases t with
  | nil => rfl
  | cons c t =>
    have more : c ≠ 0 := fun zero => whole (zero ▸ List.mem_cons_self)
    have closed := closeQuote_eq c t after fun member => whole (List.mem_cons_of_mem c member)
    have next : (peek (c :: (t ++ 0 :: after)) 1 <&> (· == '\''.toUInt8)) =
        pure (decide (t.head? = some '\''.toUInt8)) := by
      cases t with
      | nil => rfl
      | cons x t =>
        have same : (x == '\''.toUInt8) = decide (x = '\''.toUInt8) := beq_eq_decide x _
        simp [same]
    rw [singleStep, List.cons_append, next, peek_zero, test_pure, test_and, stepOf]
    by_cases slash : c = '\\'.toUInt8
    · by_cases escaped : t.head? = some '\''.toUInt8
      · simp [slash, escaped]
      · subst slash
        have quote : '\\'.toUInt8 ≠ '\''.toUInt8 := by decide
        simp [escaped, quote, more]
    · simp only [slash, beq_iff_eq, if_false, pure_bind, Bool.false_eq_true, false_and, closed,
        more]
      split_ifs <;> rfl

/-- A round looks at the line up to its terminator and no further. -/
theorem argStep_eq (mode : ArgMode) (t after : List UInt8) (whole : 0 ∉ t) :
    argStep mode (t ++ 0 :: after) = pure (stepOf mode t) := by
  cases mode with
  | double => exact doubleStep_eq t after whole
  | single => exact singleStep_eq t after whole
  | plain =>
    cases t with
    | nil => rfl
    | cons c t =>
      rw [argStep, plainStep, List.cons_append, peek_zero, pure_bind, stepOf]
      split_ifs <;> rfl

/-- What a step means for the rest of an argument. -/
def ArgStep.Goes (mode : ArgMode) (t v rest : List UInt8) : ArgStep → Prop
  | .put c moved => ∃ later, v = c :: later ∧ Reads mode (t.drop (moved + 1)) later rest
  | .enter next => Reads next (t.drop 1) v rest
  | .done => v = [] ∧ rest = t.drop 1
  | .err => False

/-- A hexadecimal escape starts with a backslash. -/
theorem hexEscape_of_ne {t : List UInt8} (slash : c ≠ '\\'.toUInt8) : ¬ hexEscape (c :: t) := by
  intro escape
  obtain ⟨h, l, rest, same, -⟩ := hexEscape_digits escape
  exact slash (List.cons.inj same).1

/-- A backslash starts a hexadecimal escape when two digits follow. -/
theorem hexEscape_iff {t : List UInt8} : hexEscape ('\\'.toUInt8 :: t) ↔ HexTail t := by
  constructor
  · intro escape
    obtain ⟨h, l, rest, same, high, low⟩ := hexEscape_digits escape
    exact ⟨h, l, rest, (List.cons.inj same).2, high, low⟩
  · rintro ⟨h, l, rest, rfl, high, low⟩
    simp [hexEscape, high, low]

/-- What the grammar says is what the step does. -/
theorem Reads.goes {t v : List UInt8} (reads : Reads mode t v rest) :
    (stepOf mode t).Goes mode t v rest := by
  cases reads with
  | finish => exact ⟨rfl, rfl⟩
  | blank ends =>
    rw [stepOf, if_pos ends]
    exact ⟨rfl, rfl⟩
  | plain goes single double later =>
    rw [stepOf, if_neg goes, if_neg double, if_neg single]
    exact ⟨_, rfl, later⟩
  | openDouble later => exact later
  | openSingle later => exact later
  | closeDouble follows =>
    have slash : '"'.toUInt8 ≠ '\\'.toUInt8 := by decide
    rw [stepOf, if_neg (hexEscape_of_ne slash), if_neg (fun wrong => slash wrong.1), if_pos rfl,
      if_pos follows]
    exact ⟨rfl, rfl⟩
  | hex high low later =>
    rw [stepOf, if_pos (hexEscape_iff.mpr ⟨_, _, _, rfl, high, low⟩)]
    exact ⟨_, rfl, later⟩
  | escape short later =>
    rw [stepOf, if_neg (mt hexEscape_iff.mp short), if_pos ⟨rfl, List.cons_ne_nil _ _⟩]
    exact ⟨_, rfl, later⟩
  | double slash quote later =>
    rw [stepOf, if_neg (hexEscape_of_ne slash), if_neg (fun wrong => slash wrong.1), if_neg quote]
    exact ⟨_, rfl, later⟩
  | closeSingle follows =>
    rw [stepOf, if_neg (fun wrong => absurd wrong.1 (by decide)), if_pos rfl, if_pos follows]
    exact ⟨rfl, rfl⟩
  | quote later => exact ⟨_, rfl, later⟩
  | single quote slash later =>
    rw [stepOf, if_neg (fun wrong => slash wrong.1 wrong.2), if_neg quote]
    exact ⟨_, rfl, later⟩

/-- What the step does is what the grammar says. -/
theorem Reads.of_goes {t v : List UInt8} (goes : (stepOf mode t).Goes mode t v rest) :
    Reads mode t v rest := by
  cases mode with
  | plain =>
    cases t with
    | nil =>
      obtain ⟨rfl, rfl⟩ := goes
      exact .finish
    | cons c t =>
      rw [stepOf] at goes
      split_ifs at goes with ends double single
      · obtain ⟨rfl, rfl⟩ := goes
        exact .blank ends
      · subst double
        exact .openDouble goes
      · subst single
        exact .openSingle goes
      · obtain ⟨later, rfl, reads⟩ := goes
        exact .plain ends single double reads
  | double =>
    cases t with
    | nil => exact goes.elim
    | cons c t =>
      rw [stepOf] at goes
      split_ifs at goes with hex escape quote follows
      · obtain ⟨later, rfl, reads⟩ := goes
        obtain ⟨h, l, rest', same, high, low⟩ := hexEscape_digits hex
        obtain ⟨rfl, rfl⟩ := List.cons.inj same
        exact .hex high low reads
      · obtain ⟨later, rfl, reads⟩ := goes
        obtain ⟨rfl, more⟩ := escape
        obtain ⟨x, t, rfl⟩ := List.exists_cons_of_ne_nil more
        exact .escape (mt hexEscape_iff.mpr hex) reads
      · obtain ⟨rfl, rfl⟩ := goes
        subst quote
        exact .closeDouble follows
      · exact goes.elim
      · obtain ⟨later, rfl, reads⟩ := goes
        by_cases slash : c = '\\'.toUInt8
        · have last : t = [] := by
            by_contra more
            exact escape ⟨slash, more⟩
          subst last
          cases reads
        · exact .double slash quote reads
  | single =>
    cases t with
    | nil => exact goes.elim
    | cons c t =>
      rw [stepOf] at goes
      split_ifs at goes with escape quote follows
      · obtain ⟨later, rfl, reads⟩ := goes
        obtain ⟨rfl, next⟩ := escape
        obtain ⟨t, rfl⟩ := List.head?_eq_some_iff.mp next
        exact .quote reads
      · obtain ⟨rfl, rfl⟩ := goes
        subst quote
        exact .closeSingle follows
      · exact goes.elim
      · obtain ⟨later, rfl, reads⟩ := goes
        exact .single quote (fun slash next => escape ⟨slash, next⟩) reads

/-- A round that appends a byte moves within the line. -/
theorem stepOf_put {t : List UInt8} {moved : Nat} (step : stepOf mode t = .put c moved) :
    moved < t.length := by
  cases t with
  | nil => cases mode <;> cases step
  | cons x t =>
    cases mode
    case double =>
      rw [stepOf] at step
      split_ifs at step with hex escape
      · obtain ⟨h, l, rest, same, -⟩ := hexEscape_digits hex
        cases step
        simp [same]
      · have more := List.length_pos_iff.mpr escape.2
        cases step
        rw [List.length_cons]
        omega
      · cases step
        exact Nat.succ_pos _
    case single =>
      rw [stepOf] at step
      split_ifs at step with escape
      · obtain ⟨t, rfl⟩ := List.head?_eq_some_iff.mp escape.2
        cases step
        simp
      · cases step
        exact Nat.succ_pos _
    case plain =>
      rw [stepOf] at step
      split_ifs at step
      cases step
      exact Nat.succ_pos _

/-- A round that opens a quote is made at the quote. -/
theorem stepOf_enter {t : List UInt8} {next : ArgMode} (step : stepOf mode t = .enter next) :
    0 < t.length := by
  cases t with
  | nil => cases mode <;> cases step
  | cons x t => exact Nat.succ_pos _

/-- The rest of an argument is read in one way. -/
theorem Reads.unique {t v v' rest' : List UInt8} (first : Reads mode t v rest)
    (second : Reads mode t v' rest') : v = v' ∧ rest = rest' := by
  induction size : t.length using Nat.strong_induction_on generalizing mode t v v' with
  | _ n ih =>
    have goes := first.goes
    have goes' := second.goes
    cases step : stepOf mode t with
    | put c moved =>
      rw [step] at goes goes'
      obtain ⟨later, rfl, reads⟩ := goes
      obtain ⟨later', rfl, reads'⟩ := goes'
      have inside := stepOf_put step
      obtain ⟨rfl, rfl⟩ := ih _ (by rw [List.length_drop]; omega) reads reads' rfl
      exact ⟨rfl, rfl⟩
    | enter next =>
      rw [step] at goes goes'
      have inside := stepOf_enter step
      exact ih _ (by rw [List.length_drop]; omega) goes goes' rfl
    | done =>
      rw [step] at goes goes'
      exact ⟨goes.1.trans goes'.1.symm, goes.2.trans goes'.2.symm⟩
    | err =>
      rw [step] at goes
      exact goes.elim

/-- What is left of the line after an argument. -/
theorem Reads.rest_length {t v : List UInt8} (reads : Reads mode t v rest) :
    rest.length ≤ t.length - 1 := by
  induction reads <;> simp_all <;> omega

/-- What is left of the line is the end of it. -/
theorem Reads.suffix {t v : List UInt8} (reads : Reads mode t v rest) : rest <:+ t := by
  induction reads with
  | finish => exact List.suffix_rfl
  | blank => exact List.suffix_cons _ _
  | closeDouble => exact List.suffix_cons _ _
  | closeSingle => exact List.suffix_cons _ _
  | plain _ _ _ _ ih => exact ih.trans (List.suffix_cons _ _)
  | openDouble _ ih => exact ih.trans (List.suffix_cons _ _)
  | openSingle _ ih => exact ih.trans (List.suffix_cons _ _)
  | double _ _ _ ih => exact ih.trans (List.suffix_cons _ _)
  | single _ _ _ ih => exact ih.trans (List.suffix_cons _ _)
  | escape _ _ ih => exact ih.trans (List.suffix_append [_, _] _)
  | quote _ ih => exact ih.trans (List.suffix_append [_, _] _)
  | hex _ _ _ ih => exact ih.trans (List.suffix_append [_, _, _, _] _)

/-- Going on by one byte stops at the terminator. -/
theorem advance_eq {t : List UInt8} (after : List UInt8) (whole : 0 ∉ t) :
    advance (t ++ 0 :: after) = pure (t.drop 1 ++ 0 :: after) := by
  cases t with
  | nil => rfl
  | cons c t =>
    have more : c ≠ 0 := fun zero => whole (zero ▸ List.mem_cons_self)
    rw [advance, List.cons_append, peek_zero, pure_bind, if_pos more]
    rfl

/-- What the loop for an argument returns. -/
structure ArgRead (mode : ArgMode) (t after : List UInt8) (current : SdsString)
    (r : SdsString × Option (List UInt8)) : Prop where
  /-- A string. -/
  valid : r.1.Valid
  /-- It holds what the argument stands for, and the loop is behind the argument. -/
  accepts : ∀ p, r.2 = some p → ∃ v rest, Reads mode t v rest ∧ r.1.content = current.content ++ v ∧
    p = rest ++ 0 :: after
  /-- There is no argument. -/
  rejects : r.2 = none → ∀ v rest, ¬ Reads mode t v rest

/-- The loop for an argument reads it, and not behind the terminator of the line. -/
theorem argLoop_spec {t : List UInt8} {fuel : Nat} (after : List UInt8) {current : SdsString}
    (m₀ : Memory) (whole : 0 ∉ t) (enough : t.length < fuel) (valid : current.Valid)
    (small : current.content.length + t.length < 2 ^ 63) :
    ⦃fun m => ⌜m = m₀⌝⦄
    argLoop A fuel mode (t ++ 0 :: after) current
    ⦃post⟨fun r m => ⌜ArgRead mode t after current r ∧ m₀.Trades m [current.base] [r.1.base]⌝,
      fun e m => ⌜∃ held, Lacks A m₀ m [current.base] held e⌝⟩⦄ := by
  induction fuel generalizing mode t current m₀ with
  | zero => omega
  | succ fuel ih =>
    rw [argLoop, argStep_eq mode t after whole, pure_bind]
    cases step : stepOf mode t with
    | put c moved =>
      have inside := stepOf_put step
      have shorter : (t.drop moved).drop 1 = t.drop (moved + 1) := List.drop_drop
      have position : (t ++ 0 :: after).drop moved = t.drop moved ++ 0 :: after :=
        List.drop_append_of_le_length inside.le
      have whole' : 0 ∉ t.drop moved := fun member => whole (List.mem_of_mem_drop member)
      have whole'' : 0 ∉ t.drop (moved + 1) := fun member => whole (List.mem_of_mem_drop member)
      dsimp only
      rw [position, advance_eq after whole', shorter]
      have appends := @sdscatlen_spec A current m₀ [c] valid (by rw [List.length_singleton]; omega)
      refine Allocating.chain appends ?_ fun q m₁ added => ?_
      · exact fun e m refused => ⟨_, refused.fault, refused.refuses, refused.trades⟩
      have longer := congrArg List.length added.content
      rw [List.length_append, List.length_singleton] at longer
      have size : (t.drop (moved + 1)).length = t.length - (moved + 1) := List.length_drop
      rw [pure_bind]
      have rest := @ih mode (t.drop (moved + 1)) q m₁ whole'' (by omega) added.valid (by omega)
      refine Allocating.weaken rest (fun r m ⟨read, traded⟩ => ?_) ?_
      · refine ⟨⟨read.valid, fun p found => ?_, fun none_left v rest reads => ?_⟩,
          added.trades.trans traded⟩
        · obtain ⟨v, rest, reads, content, same⟩ := read.accepts p found
          refine ⟨c :: v, rest, .of_goes (step ▸ ⟨v, rfl, reads⟩), ?_, same⟩
          rw [content, added.content, List.append_assoc, List.singleton_append]
        · have goes := reads.goes
          rw [step] at goes
          obtain ⟨later, -, reads⟩ := goes
          exact read.rejects none_left later rest reads
      · exact fun e m ⟨held, lacks⟩ => ⟨held, lacks.later added.trades⟩
    | enter next =>
      have inside := stepOf_enter step
      have whole' : 0 ∉ t.drop 1 := fun member => whole (List.mem_of_mem_drop member)
      have size : (t.drop 1).length = t.length - 1 := List.length_drop
      dsimp only
      rw [advance_eq after whole, pure_bind]
      have rest := @ih next (t.drop 1) current m₀ whole' (by omega) valid (by omega)
      refine Allocating.weaken rest (fun r m ⟨read, traded⟩ => ?_) fun _ _ lacks => lacks
      refine ⟨⟨read.valid, fun p found => ?_, fun none_left v rest reads => ?_⟩, traded⟩
      · obtain ⟨v, rest, reads, content, same⟩ := read.accepts p found
        exact ⟨v, rest, .of_goes (step ▸ reads), content, same⟩
      · have goes := reads.goes
        rw [step] at goes
        exact read.rejects none_left v rest goes
    | done =>
      dsimp only
      rw [advance_eq after whole, pure_bind]
      refine Triple.pure _ fun m same => ⟨⟨valid, ?_, fun none_left => ?_⟩, same ▸ .refl _ _⟩
      · rintro _ ⟨rfl⟩
        exact ⟨[], t.drop 1, .of_goes (step ▸ ⟨rfl, rfl⟩), (List.append_nil _).symm, rfl⟩
      · cases none_left
    | err =>
      refine Triple.pure _ fun m same => ⟨⟨valid, fun p found => ?_, fun _ v rest reads => ?_⟩,
        same ▸ .refl _ _⟩
      · cases found
      · have goes := reads.goes
        rw [step] at goes
        exact goes

/-- The blanks before an argument are skipped. -/
theorem skipBlanks_eq {t : List UInt8} (after : List UInt8) (whole : 0 ∉ t) :
    skipBlanks (t ++ 0 :: after) = pure (t.dropWhile isspace ++ 0 :: after) := by
  induction t with
  | nil => rfl
  | cons c t ih =>
    have more : c ≠ 0 := fun zero => whole (zero ▸ List.mem_cons_self)
    rw [List.cons_append, skipBlanks, List.dropWhile_cons]
    by_cases blank : isspace c = true
    · rw [if_pos ⟨more, blank⟩, if_pos blank]
      exact ih fun member => whole (List.mem_cons_of_mem c member)
    · rw [if_neg (fun wrong => blank wrong.2), if_neg blank]
      rfl

/-- A line is read behind the blanks that it starts with. -/
theorem line_iff {t : List UInt8} {vs : List (List UInt8)} :
    Line t vs ↔ (t.dropWhile isspace = [] ∧ vs = []) ∨
      ∃ v rest later, t.dropWhile isspace ≠ [] ∧ Reads .plain (t.dropWhile isspace) v rest ∧
        Line rest later ∧ vs = v :: later := by
  constructor
  · intro line
    cases line with
    | blanks blank => exact .inl ⟨List.dropWhile_eq_nil_iff.mpr blank, rfl⟩
    | cons blank first reads later =>
      rw [List.dropWhile_append_of_pos blank, List.dropWhile_cons_of_neg first]
      exact .inr ⟨_, _, _, List.cons_ne_nil _ _, reads, later, rfl⟩
  · rintro (⟨blank, rfl⟩ | ⟨v, rest, later, more, reads, line, rfl⟩)
    · exact .blanks (List.dropWhile_eq_nil_iff.mp blank)
    · obtain ⟨c, t', found⟩ := List.exists_cons_of_ne_nil more
      have first := List.head_dropWhile_not isspace more
      have blank : ∀ c ∈ t.takeWhile isspace, isspace c := fun c => List.mem_takeWhile_imp
      have line := Line.cons blank (c := c) (t := t') (by simpa [found] using first)
        (found ▸ reads) line
      rwa [← found, List.takeWhile_append_dropWhile] at line

/-- What the loop of `sdssplitargs` returns. -/
structure ArgsRead (m₀ m : Memory) (t : List UInt8) (tokens : TokenArray) (r : Option TokenArray) :
    Prop where
  /-- An array with the arguments of the line. -/
  accepts : ∀ q, r = some q → ∃ vs, Line t vs ∧ Grown m₀ m tokens q vs
  /-- The line has no arguments, and everything is given back. -/
  rejects : r = none → (∀ vs, ¬ Line t vs) ∧ m₀.Trades m tokens.held []

/-- At the end of the line an array is returned. -/
theorem returnArgs_spec {t : List UInt8} {tokens : TokenArray} (m₀ : Memory)
    (ended : t.dropWhile isspace = []) (valid : tokens.Valid) :
    ⦃fun m => ⌜m = m₀⌝⦄
    returnArgs A tokens
    ⦃post⟨fun r m => ⌜ArgsRead m₀ m t tokens r⌝,
      fun e m => ⌜∃ held, Lacks A m₀ m tokens.held held e⌝⟩⦄ := by
  have line : Line t [] := line_iff.mpr (.inl ⟨ended, rfl⟩)
  have returned : ∀ {q m}, q.elements = tokens.elements → m₀.Trades m tokens.held q.held →
      ArgsRead m₀ m t tokens (some q) := by
    intro q m same traded
    refine ⟨?_, fun none_left => ?_⟩
    · rintro _ ⟨rfl⟩
      refine ⟨[], line, ?_, ?_, traded⟩
      · rwa [TokenArray.Valid, same]
      · rw [TokenArray.contents, same, List.append_nil, TokenArray.contents]
    · cases none_left
  cases given : tokens.block with
  | none =>
    rw [returnArgs, given]
    refine Allocating.chain (resize_spec tokens (by decide)) (fun _ _ lacks => ⟨_, lacks⟩)
      fun q m₁ made => ?_
    exact Triple.pure _ fun m same => returned made.1 (same ▸ made.2.2.2)
  | some block =>
    rw [returnArgs, given]
    exact Triple.pure _ fun m same => returned rfl (same ▸ .refl _ _)

/-- `sdssplitargs` goes to `err` and gives everything back. -/
theorem argsFail_spec {t : List UInt8} {tokens : TokenArray} {current : SdsString} {m₁ : Memory}
    (none_left : ∀ vs, ¬ Line t vs) (valid : tokens.Valid) (last : current.Valid)
    (traded : m₀.Trades m₁ tokens.held (tokens.held ++ [current.base])) :
    ⦃fun m => ⌜m = m₁⌝⦄
    (do
      freeElements tokens.elements.reverse tokens.block
      sdsfree (some current)
      return none)
    ⦃post⟨fun r m => ⌜ArgsRead m₀ m t tokens r⌝,
      fun e m => ⌜∃ held, Lacks A m₀ m tokens.held held e⌝⟩⦄ := by
  have gives := @sdsfreesplitres_spec (some tokens) m₁ fun u same => by
    cases same
    exact valid
  refine Allocating.chain gives (fun _ _ => False.elim) fun _ m₂ given => ?_
  refine Allocating.chain (sdsfree_spec m₂ last) (fun _ _ => False.elim) fun _ m₃ freed => ?_
  have first := given.frame (.refl (heldBy (some tokens) ++ [current.base])) (.refl _)
  refine Triple.pure _ fun m same => ⟨fun q found => ?_, fun _ => ⟨none_left, ?_⟩⟩
  · cases found
  · exact same ▸ traded.trans (first.trans freed)

/-- A token is added to the array of `sdssplitargs`. -/
theorem addArg_spec {tokens : TokenArray} {token : SdsString} (m₀ : Memory) (valid : tokens.Valid)
    (new : token.Valid) (few : tokens.elements.length < 2 ^ 31) :
    ⦃fun m => ⌜m = m₀⌝⦄
    addArg A tokens token
    ⦃post⟨fun r m => ⌜r.Valid ∧ r.contents = tokens.contents ++ [token.content] ∧
        m₀.Trades m (tokens.held ++ [token.base]) r.held⌝,
      fun e m => ⌜∃ held, Lacks A m₀ m (tokens.held ++ [token.base]) held e⌝⟩⦄ := by
  have slots : sizeofSds * (tokens.elements.length + 1) < 2 ^ 64 := by
    rw [sizeofSds]
    omega
  refine Allocating.chain (resize_spec tokens slots) (fun e m lacks => ?_) fun u m₁ made => ?_
  · exact ⟨_, lacks.fault, lacks.refuses, lacks.trades.frame (.refl _) (.refl _)⟩
  obtain ⟨same, room, -, exchanged⟩ := made
  have fits : sizeofSds * (u.elements.length + 1) ≤ u.size := by
    rw [room.1, same]
    exact Nat.mul_le_mul_left _ room.2
  have held : u.held ++ [token.base] =
      TokenArray.held { u with elements := u.elements ++ [token] } := by
    simp [TokenArray.held, basesOf]
  rw [TokenArray.push, if_pos fits]
  refine Triple.pure _ fun m same_memory => ⟨?_, ?_, ?_⟩
  · intro w member
    rw [same] at member
    obtain old | last := List.mem_append.mp member
    · exact valid w old
    · rwa [List.mem_singleton.mp last]
  · simp [TokenArray.contents, contentsOf, same]
  · exact held ▸ same_memory ▸ exchanged.frame (.refl _) (.refl _)

/-- Behind its blanks a line starts with an argument, and goes on behind it. -/
theorem line_behind {t v rest : List UInt8} {c : UInt8} {t' : List UInt8} {vs : List (List UInt8)}
    (found : t.dropWhile isspace = c :: t') (reads : Reads .plain (c :: t') v rest) :
    Line t vs ↔ ∃ later, Line rest later ∧ vs = v :: later := by
  rw [line_iff, found]
  constructor
  · rintro (⟨ended, -⟩ | ⟨v', rest', later, -, reads', line, rfl⟩)
    · cases ended
    · obtain ⟨rfl, rfl⟩ := reads.unique reads'
      exact ⟨later, line, rfl⟩
  · rintro ⟨later, line, rfl⟩
    exact .inr ⟨v, rest, later, List.cons_ne_nil _ _, reads, line, rfl⟩

/-- The loop of `sdssplitargs` reads the line, and not behind its terminator. -/
theorem argsLoop_spec {t : List UInt8} {fuel : Nat} (after : List UInt8) {tokens : TokenArray}
    (m₀ : Memory) (whole : 0 ∉ t) (enough : t.length < fuel) (valid : tokens.Valid)
    (small : tokens.elements.length + t.length < 2 ^ 31) :
    ⦃fun m => ⌜m = m₀⌝⦄
    argsLoop A fuel (t ++ 0 :: after) tokens
    ⦃post⟨fun r m => ⌜ArgsRead m₀ m t tokens r⌝,
      fun e m => ⌜∃ held, Lacks A m₀ m tokens.held held e⌝⟩⦄ := by
  induction fuel generalizing t tokens m₀ with
  | zero => omega
  | succ fuel ih =>
    have shorter : (t.dropWhile isspace).length ≤ t.length := (t.dropWhile_suffix isspace).length_le
    have whole' : 0 ∉ t.dropWhile isspace :=
      fun member => whole ((t.dropWhile_suffix isspace).subset member)
    rw [argsLoop, skipBlanks_eq after whole, pure_bind]
    cases found : t.dropWhile isspace with
    | nil => exact returnArgs_spec m₀ found valid
    | cons c t' =>
      rw [found] at shorter whole'
      have more : c ≠ 0 := fun zero => whole' (zero ▸ List.mem_cons_self)
      rw [List.cons_append, peek_zero, pure_bind, if_pos more, ← List.cons_append]
      refine Allocating.chain (sdsempty_spec m₀) (fun e m lacks => ?_) fun e m₁ made => ?_
      · exact ⟨_, lacks.fault, lacks.refuses, lacks.trades.frame (.refl _) (.refl _)⟩
      obtain ⟨valid_empty, nothing, drawn⟩ := made
      have drawn_beside := drawn.beside tokens.held
      rw [List.append_nil] at drawn_beside
      have token_fits : e.content.length + (c :: t').length < 2 ^ 63 := by
        rw [nothing, List.length_nil]
        omega
      have reads := @argLoop_spec A .plain (c :: t') (((c :: t') ++ 0 :: after).length + 1) after
        e m₁ whole' (by simp) valid_empty token_fits
      refine Allocating.chain reads ?_ fun p m₂ read => ?_
      · rintro e m ⟨held, lacks⟩
        exact ⟨_, lacks.fault, lacks.refuses,
          drawn_beside.trans (lacks.trades.beside tokens.held)⟩
      obtain ⟨read, traded⟩ := read
      have with_token := drawn_beside.trans (traded.beside tokens.held)
      obtain ⟨token, behind⟩ := p
      cases behind with
      | none =>
        have no_line : ∀ vs, ¬ Line t vs := by
          intro vs line
          rw [line_iff, found] at line
          rcases line with ⟨ended, -⟩ | ⟨v, rest, later, -, reads, -⟩
          · cases ended
          · exact read.rejects rfl v rest reads
        exact argsFail_spec no_line valid read.valid with_token
      | some q =>
        obtain ⟨v, rest, reads, content, rfl⟩ := read.accepts q rfl
        rw [nothing, List.nil_append] at content
        have sizes := reads.rest_length
        rw [List.length_cons] at sizes shorter
        have whole_rest : 0 ∉ rest := fun member => whole' (reads.suffix.subset member)
        refine Allocating.chain (addArg_spec m₂ valid read.valid (by omega)) ?_ fun u m₃ made => ?_
        · rintro e m ⟨held, lacks⟩
          exact ⟨_, lacks.later with_token⟩
        obtain ⟨holds, contents, exchanged⟩ := made
        have grown : Grown m₀ m₃ tokens u [v] :=
          ⟨holds, content ▸ contents, with_token.trans exchanged⟩
        have count := grown.length
        rw [List.length_singleton] at count
        have others := @ih rest u m₃ whole_rest (by omega) holds (by omega)
        refine Allocating.weaken others (fun r m last => ⟨?_, fun none_left => ?_⟩) ?_
        · intro q returned
          obtain ⟨later, line, more_grown⟩ := last.accepts q returned
          exact ⟨v :: later, (line_behind found reads).mpr ⟨later, line, rfl⟩,
            grown.trans more_grown⟩
        · obtain ⟨no_line, given⟩ := last.rejects none_left
          refine ⟨fun vs line => ?_, grown.trades.trans given⟩
          obtain ⟨later, line, -⟩ := (line_behind found reads).mp line
          exact no_line later line
        · rintro e m ⟨held, lacks⟩
          exact ⟨held, lacks.later grown.trades⟩

/-- A line has its arguments in one way. -/
theorem Line.unique {t : List UInt8} {vs ws : List (List UInt8)} (first : Line t vs)
    (second : Line t ws) : vs = ws := by
  induction size : t.length using Nat.strong_induction_on generalizing t vs ws with
  | _ n ih =>
    rcases line_iff.mp first with ⟨ended, rfl⟩ | ⟨v, rest, later, more, reads, line, rfl⟩
    · rcases line_iff.mp second with ⟨-, rfl⟩ | ⟨v', rest', later', more', -⟩
      · rfl
      · exact absurd ended more'
    · rcases line_iff.mp second with ⟨ended, -⟩ | ⟨v', rest', later', -, reads', line', rfl⟩
      · exact absurd ended more
      · obtain ⟨rfl, rfl⟩ := reads.unique reads'
        have shorter := (t.dropWhile_suffix isspace).length_le
        have left := reads.rest_length
        have some_left := List.length_pos_iff.mpr more
        rw [ih rest.length (by omega) line line' rfl]

/-- A line up to its terminator. -/
theorem cstr_zero {line : List UInt8} (ends : 0 ∈ line) :
    ∃ after, line = cstr line ++ 0 :: after ∧ 0 ∉ cstr line := by
  have more : line.dropWhile (· ≠ 0) ≠ [] := by
    intro none_left
    have all := List.dropWhile_eq_nil_iff.mp none_left 0 ends
    simp at all
  obtain ⟨c, after, found⟩ := List.exists_cons_of_ne_nil more
  have first := List.head_dropWhile_not (fun x : UInt8 => decide (x ≠ 0)) more
  simp only [found, List.head_cons] at first
  obtain rfl : c = 0 := by simpa using first
  refine ⟨after, ?_, fun member => ?_⟩
  · rw [cstr, ← found, List.takeWhile_append_dropWhile]
  · have nonzero := List.mem_takeWhile_imp member
    simp at nonzero

/-- What `sdssplitargs` returns for a line. -/
structure SplitsArgs (m₀ m : Memory) (line : List UInt8) (r : Option TokenArray) : Prop where
  /-- An array with the arguments of the line. -/
  accepts : ∀ q, r = some q → q.Valid ∧ Line (cstr line) q.contents ∧ m₀.Trades m [] q.held
  /-- The line has no arguments, and nothing is held. -/
  rejects : r = none → (∀ vs, ¬ Line (cstr line) vs) ∧ m₀.Trades m [] []

/-- `sdssplitargs` returns the arguments of a line, or `NULL` when the line is not one of arguments
or the allocator refused. It reads the line up to its terminator and no further. -/
theorem sdssplitargs_spec {line : List UInt8} (m₀ : Memory) (ends : 0 ∈ line)
    (small : (cstr line).length < 2 ^ 31) :
    ⦃fun m => ⌜m = m₀⌝⦄
    sdssplitargs A line
    ⦃post⟨fun r m => ⌜SplitsArgs m₀ m line r⌝, fun e m => ⌜∃ held, Lacks A m₀ m [] held e⌝⟩⦄ := by
  obtain ⟨after, whole, inner⟩ := cstr_zero ends
  have valid : TokenArray.Valid {} := fun t member => by cases member
  have length : (cstr line).length < line.length + 1 := by
    have sizes := congrArg List.length whole
    rw [List.length_append] at sizes
    omega
  have loop := @argsLoop_spec A (cstr line) (line.length + 1) after {} m₀ inner length valid
    (by rwa [List.length_nil, Nat.zero_add])
  rw [← whole] at loop
  refine Allocating.weaken loop (fun r m read => ⟨fun q found => ?_, read.rejects⟩)
    fun _ _ lacks => lacks
  obtain ⟨vs, holds, grown⟩ := read.accepts q found
  have contents : q.contents = vs := grown.contents
  exact ⟨grown.valid, contents ▸ holds, grown.trades⟩

/-- Split a line into arguments, read them and give them back. -/
def readArgs (A : Allocator) (line : List UInt8) : SdsM (Option (List (List UInt8))) := do
  let tokens ← sdssplitargs A line
  sdsfreesplitres tokens
  return tokens.map TokenArray.contents

end Sherry

import Scriptlet.Proofs.Literal.Escaped
import Scriptlet.Proofs.Number.Whole

/-!
# Integer literals

A run of digits is one token, however long it is, and stands for the double nearest to its value.
What a program returns from it is the exit code nearest to the value or to its negative. What a
program writes from it is the value itself as long as doubles can hold it.
-/

namespace Scriptlet.Literal

open Tiling Number

/-- The expression that takes a number from zero. -/
def negated (x : Float) : Node := .binary (.number (Parser.numberOf "0")) .sub (.number x)

/-! ## Reading digits -/

section

variable {digits : List Char} (hdigits : ∀ c ∈ digits, c.isDigit = true) (hne : digits ≠ [])

include hdigits hne

/-- Digits that no digit follows are a token of their own behind a blank or a parenthesis. -/
theorem lex_digits {front behind : String} {first last : List Token}
    (hfront : lex front = .ok first)
    (hopen : ∀ token ∈ first, token.span.stop = front.toList.length → token.kind = .leftParen)
    (hbehind : lex behind = .ok last) (hend : behind.toList.head?.any Char.isDigit = false) :
    (lex (front ++ String.ofList digits ++ behind)).map (List.map Token.kind) =
      .ok (first.map Token.kind ++ .number (String.ofList digits) :: last.map Token.kind) := by
  obtain ⟨c, more, rfl⟩ := List.exists_cons_of_ne_nil hne
  have hdigit : c.isDigit = true := hdigits c List.mem_cons_self
  have hsource : (front ++ String.ofList (c :: more) ++ behind).toList =
      front.toList ++ c :: (more ++ behind.toList) := by
    simp
  have hstops : ∀ token ∈ first, token.span.stop = (Position.origin.after front.toList).offset →
      ∀ d ∈ (c :: (more ++ behind.toList)).head?, continues token.kind d = false := by
    intro token hmem hstop d _
    rw [origin_after] at hstop
    rw [hopen token hmem hstop]
    rfl
  have hbehindDigit : ∀ d ∈ behind.toList.head?, d.isDigit = false := by
    intro d hd
    rw [Option.mem_def.1 hd] at hend
    exact hend
  have hquote : c ≠ '"' := by
    rintro rfl
    cases hdigit
  rw [lex, hsource, tokenize_append (.of_tokenize hfront) hstops,
    tokenize_lexeme _ _ (isBlank_of_isDigit hdigit) hquote, scan?_number hdigits hbehindDigit]
  dsimp only
  rw [tokenize_of_lex hbehind]
  simp only [Except.map, List.map_append, List.map_cons, List.map_map]
  rfl

/-- A program with the digits in it is the one that the kinds of its tokens spell. -/
theorem loads_digits {front behind : String} {first last : List Token} {program : Program}
    (hfront : lex front = .ok first)
    (hopen : ∀ token ∈ first, token.span.stop = front.toList.length → token.kind = .leftParen)
    (hbehind : lex behind = .ok last) (hend : behind.toList.head?.any Char.isDigit = false)
    (hparse : parse ((first.map Token.kind ++ .number (String.ofList digits) ::
      last.map Token.kind).map fun kind ↦ ⟨kind, default⟩) = .ok program) :
    Loads (front ++ String.ofList digits ++ behind) program :=
  loads_of_kinds (lex_digits hdigits hne hfront hopen hbehind hend) hparse

theorem loads_ret_digits :
    Loads ("ret " ++ String.ofList digits ++ ";")
      [.ret (.number (Parser.numberOf (String.ofList digits)))] :=
  @loads_digits _ hdigits hne "ret " ";" [⟨.keyword .ret, ⟨0, 3, 1, 1⟩⟩]
    [⟨.semicolon, ⟨0, 1, 1, 1⟩⟩] _
    (by decide +kernel) (by decide) (by decide +kernel) (by decide) rfl

theorem loads_ret_negated :
    Loads ("ret 0 - " ++ String.ofList digits ++ ";")
      [.ret (negated (Parser.numberOf (String.ofList digits)))] :=
  @loads_digits _ hdigits hne "ret 0 - " ";"
    [⟨.keyword .ret, ⟨0, 3, 1, 1⟩⟩, ⟨.number "0", ⟨4, 5, 1, 5⟩⟩, ⟨.operator .sub, ⟨6, 7, 1, 7⟩⟩]
    [⟨.semicolon, ⟨0, 1, 1, 1⟩⟩] _
    (by decide +kernel) (by decide) (by decide +kernel) (by decide) rfl

theorem loads_write_digits :
    Loads ("write(" ++ String.ofList digits ++ ");")
      [.write false none (some (.number (Parser.numberOf (String.ofList digits))))] :=
  @loads_digits _ hdigits hne "write(" ");"
    [⟨.keyword .write, ⟨0, 5, 1, 1⟩⟩, ⟨.leftParen, ⟨5, 6, 1, 6⟩⟩]
    [⟨.rightParen, ⟨0, 1, 1, 1⟩⟩, ⟨.semicolon, ⟨1, 2, 1, 2⟩⟩] _
    (by decide +kernel) (by decide) (by decide +kernel) (by decide) rfl

theorem loads_write_negated :
    Loads ("write(0 - " ++ String.ofList digits ++ ");")
      [.write false none (some (negated (Parser.numberOf (String.ofList digits))))] :=
  @loads_digits _ hdigits hne "write(0 - " ");"
    [⟨.keyword .write, ⟨0, 5, 1, 1⟩⟩, ⟨.leftParen, ⟨5, 6, 1, 6⟩⟩, ⟨.number "0", ⟨6, 7, 1, 7⟩⟩,
      ⟨.operator .sub, ⟨8, 9, 1, 9⟩⟩]
    [⟨.rightParen, ⟨0, 1, 1, 1⟩⟩, ⟨.semicolon, ⟨1, 2, 1, 2⟩⟩] _
    (by decide +kernel) (by decide) (by decide +kernel) (by decide) rfl

/-- Digits stand for the double nearest to their value. -/
theorem exists_numberOf :
    ∃ bits, Nearest (Text.ofDigits digits) bits ∧
      Parser.numberOf (String.ofList digits) = ofMagnitude false bits := by
  let numeral : Numeral :=
    { sign := .absent, whole := digits, fraction := none, exponent := none,
      isDigit_whole := hdigits, isDigit_fraction := nofun, digits_ne_nil := by simpa using hne }
  have htext : numeral.text = digits := by
    simp [numeral, Numeral.text, Numeral.unsigned, Numeral.pointed, Numeral.tail, SignMark.text]
  have hsize : numeral.size = Text.ofDigits digits := by
    simp [numeral, Numeral.size, Numeral.power]
  obtain ⟨bits, hnearest, hread⟩ := read?_text numeral
  rw [htext] at hread
  rw [hsize] at hnearest
  refine ⟨bits, hnearest, ?_⟩
  rw [Parser.numberOf, String.toList_ofList, hread]
  rfl

end

/-! ## Running -/

open Machine

theorem shown_interpret_ret {machine : Machine} {node : Node} {value : Scalar}
    (h : evalExpr machine.env node = .ok value) (blockScope : Bool) (fuel : Nat) :
    (machine.interpret blockScope (fuel + 1) [.ret node]).shown =
      some (machine.env, machine.sink.written, .ok (some value.exitCode)) := by
  let traced := machine.trace .interpreter ("exec " ++ (Node.ret node).kind)
  have heval : traced.eval node = .done traced value := by
    rw [Machine.eval, show evalExpr traced.env node = .ok value from h]
    rfl
  have hexec : exec blockScope (fuel + 1) (.ret node) machine = .done traced (some value) := by
    calc
      exec blockScope (fuel + 1) (.ret node) machine =
          (traced.eval node).bind fun machine value ↦ .done machine (some value) := rfl
      _ = .done traced (some value) := by rw [heval, Outcome.bind_done]
  rw [interpret, runBlock, hexec]
  rfl

theorem shown_interpret_expression {machine : Machine} (h : machine.Unlimited) {node : Node}
    {value : Scalar} (heval : evalExpr machine.env node = .ok value) (blockScope : Bool)
    (fuel : Nat) :
    (machine.interpret blockScope (fuel + 1) [.write false none (some node)]).shown =
      some (machine.env, machine.sink.written ++ value.display.toUTF8, .ok none) := by
  apply shown_interpret_write h
  intro log
  rw [writePayload, Machine.eval, heval]
  rfl

theorem evalExpr_negated (env : Env) {bits : ℕ} (h : bits ≤ infinityBits) :
    evalExpr env (negated (ofMagnitude false bits)) =
      .ok (.number (ofMagnitude (decide (0 < bits)) bits)) := by
  have hzero : Parser.numberOf "0" = ofMagnitude false 0 := by decide
  rw [← zero_sub_ofMagnitude h, ← hzero]
  rfl

/-- Integer literals are exact as far as doubles can hold them, and exit codes stop at their
bounds. -/
theorem integers_exact_or_saturated {digits : List Char}
    (hdigits : ∀ c ∈ digits, c.isDigit = true) (hne : digits ≠ []) (blockScope : Bool) (fuel : Nat)
    (machine : Machine) :
    (machine.runSource blockScope (fuel + 1) ("ret " ++ String.ofList digits ++ ";")).shown =
      some (machine.env, machine.sink.written,
        .ok (some (min (Text.ofDigits digits : ℤ) (2 ^ 31 - 1)))) ∧
    (machine.runSource blockScope (fuel + 1) ("ret 0 - " ++ String.ofList digits ++ ";")).shown =
      some (machine.env, machine.sink.written,
        .ok (some (max (-(Text.ofDigits digits : ℤ)) (-2 ^ 31)))) ∧
    (Text.ofDigits digits ≤ 2 ^ 53 → machine.Unlimited →
      (machine.runSource blockScope (fuel + 1) ("write(" ++ String.ofList digits ++ ");")).shown =
        some (machine.env, machine.sink.written ++ (toString (Text.ofDigits digits)).toUTF8,
          .ok none) ∧
      (machine.runSource blockScope (fuel + 1)
          ("write(0 - " ++ String.ofList digits ++ ");")).shown =
        some (machine.env, machine.sink.written ++
          (if Text.ofDigits digits = 0 then "0" else "-" ++ toString (Text.ofDigits digits)).toUTF8,
          .ok none)) := by
  obtain ⟨bits, hnearest, hnumber⟩ := exists_numberOf hdigits hne
  generalize Text.ofDigits digits = n at hnearest ⊢
  have hpositive : evalExpr machine.env (.number (Parser.numberOf (String.ofList digits))) =
      .ok (.number (ofMagnitude false bits)) := by
    rw [hnumber]
    rfl
  have hnegative : evalExpr machine.env (negated (Parser.numberOf (String.ofList digits))) =
      .ok (.number (ofMagnitude (decide (0 < bits)) bits)) := by
    rw [hnumber]
    exact evalExpr_negated machine.env hnearest.bounded
  refine ⟨?_, ?_, ?_⟩
  · rw [shown_runSource (loads_ret_digits hdigits hne), shown_interpret_ret hpositive,
      Scalar.exitCode_whole hnearest]
  · rw [shown_runSource (loads_ret_negated hdigits hne), shown_interpret_ret hnegative,
      Scalar.exitCode_negative hnearest]
  · intro hn hunlimited
    constructor
    · rw [shown_runSource (loads_write_digits hdigits hne),
        shown_interpret_expression hunlimited hpositive, Scalar.display_whole hnearest hn]
    · rw [shown_runSource (loads_write_negated hdigits hne),
        shown_interpret_expression hunlimited hnegative, Scalar.display_negative hnearest hn]

/-- With leading zeros, and too large for an exit code. -/
theorem integers_exact_or_saturated_padded :
    (∀ c ∈ "0099999999999".toList, c.isDigit = true) ∧ "0099999999999".toList ≠ [] ∧
      Unlimited (start .unlimited .quiet) ∧ Text.ofDigits "0099999999999".toList ≤ 2 ^ 53 ∧
      ((start .unlimited .quiet).runSource true 1 ("ret 0 - " ++ "0099999999999" ++ ";")).shown =
        some (.empty, .empty, .ok (some (-2147483648))) ∧
      ((start .unlimited .quiet).runSource true 1 ("write(" ++ "0099999999999" ++ ");")).shown =
        some (.empty, .empty ++ "99999999999".toUTF8, .ok none) := by
  have hdigits : ∀ c ∈ "0099999999999".toList, c.isDigit = true :=
    List.all_eq_true.1 (by decide)
  have hne : "0099999999999".toList ≠ [] := by decide
  have hunlimited : Unlimited (start .unlimited .quiet) := ⟨rfl, rfl⟩
  have hvalue : Text.ofDigits "0099999999999".toList ≤ 2 ^ 53 := by decide
  obtain ⟨-, hret, hwrite⟩ :=
    integers_exact_or_saturated hdigits hne true 0 (start .unlimited .quiet)
  exact ⟨hdigits, hne, hunlimited, hvalue, hret, (hwrite hvalue hunlimited).1⟩

end Scriptlet.Literal

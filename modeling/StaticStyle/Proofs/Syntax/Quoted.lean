import StaticStyle.Proofs.Syntax.Gap
import StaticStyle.Text.Quoted

/-!
# Reading back quoted strings

A quoted text at the front of any text is one token, whose value is the text that was
quoted (`Cursor.at_quoted`).

The scanner goes through the quoted text twice, and what one character is written as is
one step both times.  The pass that looks for the closing quote goes past it
(`splitString_escapeChar`), and the pass that works out the value gives the character
(`decodeChars_escapeChar`).
-/

namespace StaticStyle.Syntax

open StaticStyle.Text (byteLength escapeChar escape quoted)

variable {c : Char} {s t rest : List Char} {octal : Bool}

/-! ## The closing quote -/

theorem splitString_cons (hquote : c ≠ '"') (hbackslash : c ≠ '\\') (hfeed : c ≠ '\n')
    (hreturn : c ≠ '\r') (s : List Char) :
    splitString '"' (c :: s) = (splitString '"' s).map fun (a, b) => (c :: a, b) := by
  rw [splitString]
  · simp only [beq_false_of_ne hquote, beq_false_of_ne hfeed, beq_false_of_ne hreturn,
      Bool.or_false, if_neg Bool.false_ne_true]
  · exact fun _ hc _ => hbackslash hc
  · exact fun _ _ hc _ => hbackslash hc

/-- What a character is written as does not end a string. -/
theorem splitString_escapeChar (c : Char) (s : List Char) :
    splitString '"' (escapeChar c ++ s) =
      (splitString '"' s).map fun (a, b) => (escapeChar c ++ a, b) := by
  have hdigits : ∀ d, d ≠ '"' → d ≠ '\\' → d ≠ '\n' → d ≠ '\r' →
      splitString '"' ('\\' :: 'u' :: '2' :: '0' :: '2' :: d :: s) =
        (splitString '"' s).map fun (a, b) => ('\\' :: 'u' :: '2' :: '0' :: '2' :: d :: a, b) := by
    intro d hquote hbackslash hfeed hreturn
    rw [splitString]
    · rw [splitString_cons (by decide) (by decide) (by decide) (by decide),
        splitString_cons (by decide) (by decide) (by decide) (by decide),
        splitString_cons (by decide) (by decide) (by decide) (by decide),
        splitString_cons hquote hbackslash hfeed hreturn]
      simp only [Option.map_map]
      rfl
    · exact fun _ hc _ => absurd hc (by decide)
  unfold escapeChar
  split
  case h_6 => exact hdigits '8' (by decide) (by decide) (by decide) (by decide)
  case h_7 => exact hdigits '9' (by decide) (by decide) (by decide) (by decide)
  case h_8 hquote hbackslash hfeed hreturn _ _ _ =>
    exact splitString_cons hquote hbackslash hfeed hreturn s
  all_goals rfl

theorem splitString_escape (s rest : List Char) :
    splitString '"' (escape s ++ '"' :: rest) = some (escape s, '"' :: rest) := by
  induction s with
  | nil => rfl
  | cons c s ih =>
      have hcons : escape (c :: s) = escapeChar c ++ escape s := List.flatMap_cons
      rw [hcons, List.append_assoc, splitString_escapeChar, ih]
      rfl

/-! ## The value -/

theorem decodeChars_backslash (h : readEscape octal s = some ([c], t)) (fuel : Nat) :
    decodeChars octal (fuel + 1) ('\\' :: s) = (decodeChars octal fuel t).map (c :: ·) := by
  rw [decodeChars, h]
  change (decodeChars octal fuel t).bind (fun more => some ([c] ++ more)) = _
  cases decodeChars octal fuel t with
  | none => rfl
  | some value => rfl

/-- What a character is written as stands for the character. -/
theorem decodeChars_escapeChar (c : Char) (fuel : Nat) (s : List Char) :
    decodeChars octal (fuel + 1) (escapeChar c ++ s) = (decodeChars octal fuel s).map (c :: ·) := by
  unfold escapeChar
  split
  case h_8 _ hbackslash _ hreturn _ _ _ =>
    rw [List.cons_append, List.nil_append, decodeChars]
    · rw [if_neg fun h => hreturn (beq_iff_eq.mp h)]
    · exact hbackslash
    · exact fun _ hc _ => hreturn hc
  -- A quote and a backslash are no octal digits, so it does not matter what those mean.
  case h_1 => exact decodeChars_backslash (by cases octal <;> rfl) fuel
  case h_2 => exact decodeChars_backslash (by cases octal <;> rfl) fuel
  all_goals exact decodeChars_backslash rfl fuel

theorem length_le_escape (s : List Char) : s.length ≤ (escape s).length := by
  induction s with
  | nil => exact Nat.le_refl 0
  | cons c s ih =>
      have hc : 1 ≤ (escapeChar c).length := by
        unfold escapeChar
        split <;> exact Nat.le_add_left 1 _
      have hcons : escape (c :: s) = escapeChar c ++ escape s := List.flatMap_cons
      rw [hcons, List.length_append, List.length_cons]
      omega

theorem decodeChars_escape {fuel : Nat} (h : s.length ≤ fuel) :
    decodeChars octal fuel (escape s) = some s := by
  induction s generalizing fuel with
  | nil => exact decodeChars.eq_1 octal fuel
  | cons c s ih =>
      obtain ⟨fuel, rfl⟩ := Nat.exists_eq_add_one_of_ne_zero (Nat.ne_of_gt (Nat.zero_lt_of_lt h))
      have hcons : escape (c :: s) = escapeChar c ++ escape s := List.flatMap_cons
      rw [hcons, decodeChars_escapeChar, ih (Nat.le_of_succ_le_succ h)]
      rfl

theorem decode_escape (s : List Char) : decode octal (escape s) = some s :=
  decodeChars_escape (length_le_escape s)

/-! ## Tokens -/

/-- A quoted text is taken off the front of a text up to its closing quote. -/
theorem scanToken_quoted (s rest : List Char) :
    scanToken (quoted s ++ rest) = ⟨.string (String.ofList s), quoted s, rest⟩ := by
  have htext : quoted s ++ rest = '"' :: (escape s ++ '"' :: rest) := by
    rw [quoted, List.cons_append, List.cons_append, List.append_assoc, List.singleton_append]
  have hscan : scanToken ('"' :: (escape s ++ '"' :: rest)) =
      scanString '"' (escape s ++ '"' :: rest) := rfl
  rw [htext, hscan, scanString, splitString_escape]
  dsimp only
  rw [decode_escape]
  rfl

/-- A cursor in front of a quoted text has the string as its next token.  The token starts
there and ends behind the closing quote, and what follows is left as it is. -/
theorem Cursor.at_quoted (last : Nat) (s rest : List Char) :
    Cursor.at last (quoted s ++ rest) =
      ⟨last, quoted s ++ rest, false, last, quoted s ++ rest, .string (String.ofList s),
        last + byteLength (quoted s), rest⟩ := by
  have hgap : skipGap .between false last (quoted s ++ rest) =
      some (false, last, quoted s ++ rest) :=
    skipGap_token false last _ (by decide) (by decide) (by decide)
  rw [Cursor.at, hgap]
  dsimp only
  rw [scanToken_quoted]

/-- Quotes, backslashes and line ends in a text do not end its literal. -/
example : (Cursor.at 0 (quoted "\"\\\n\u2028".toList ++ "\"".toList)).token = .string "\"\\\n\u2028" := by
  decide +kernel

end StaticStyle.Syntax

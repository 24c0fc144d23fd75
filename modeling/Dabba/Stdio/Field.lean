import Dabba.Stdio.Scan

/-!
# What a conversion accepts

A conversion to an integer takes a field of the text: white space, a sign, a prefix in
base sixteen, and digits. The texts that a format reads to the end of a number are put
together from such fields and the characters the format asks for.
-/

namespace Stdio

open Posix

/-- A number as it is written in base `b`. -/
structure Numeral (b : ℕ) where
  digits : List Byte
  ne_nil : digits ≠ []
  isDigit : ∀ c ∈ digits, (digit? b c).isSome = true

def Numeral.value {b : ℕ} (n : Numeral b) : ℕ := digitsValue b n.digits

namespace Numeral

variable (b n : ℕ) (hb : 1 < b) (hb' : b ≤ 16)

def ofNat : Numeral b where
  digits := numeral b n
  ne_nil := numeral_ne_nil b n
  isDigit _ hc := isSome_digit?_of_mem_numeral hb hb' hc

theorem value_ofNat : (ofNat b n hb hb').value = n := digitsValue_numeral hb hb' n

def padded (w : ℕ) : Numeral b where
  digits := Stdio.padded w b n
  ne_nil := List.append_ne_nil_of_right_ne_nil _ (numeral_ne_nil b n)
  isDigit _ hc := isSome_digit?_of_mem_padded hb hb' hc

theorem value_padded (w : ℕ) : (padded b n hb hb' w).value = n :=
  digitsValue_padded hb hb' w n

end Numeral

structure Blank where
  text : List Byte
  isSpace : ∀ c ∈ text, isspace c = true

def IsSign (t : List Byte) : Prop := t = [] ∨ t = [ascii '-'] ∨ t = [ascii '+']

def IsPrefix : Conversion → List Byte → Prop
  | .x, t => t = [] ∨ t = [ascii '0', ascii 'x'] ∨ t = [ascii '0', ascii 'X']
  | _, t => t = []

/-- The text that a conversion takes for a number. -/
structure Field (conv : Conversion) where
  blank : Blank
  sign : List Byte
  isSign : IsSign sign
  lead : List Byte
  isPrefix : IsPrefix conv lead
  number : Numeral conv.base

def Field.text {conv : Conversion} (f : Field conv) : List Byte :=
  f.blank.text ++ (f.sign ++ (f.lead ++ f.number.digits))

/-- The text begins with a number: a digit follows a sign and a prefix, and what looks
like a prefix is taken for one. -/
def StartsNumber (conv : Conversion) (s : List Byte) : Prop :=
  ∃ sign lead c rest, IsSign sign ∧ IsPrefix conv lead ∧
    (digit? conv.base c).isSome = true ∧ s = sign ++ (lead ++ c :: rest) ∧
    (lead = [] → dropPrefix conv (c :: rest) = c :: rest)

section Parts

variable {conv : Conversion} {s : List Byte}

theorem exists_blank (s : List Byte) : ∃ w : Blank, s = w.text ++ s.dropWhile isspace :=
  ⟨⟨s.takeWhile isspace, fun _ hc => List.mem_takeWhile_imp hc⟩,
    List.takeWhile_append_dropWhile.symm⟩

theorem exists_sign (s : List Byte) : ∃ sign, IsSign sign ∧ s = sign ++ (scanSign s).2 := by
  unfold scanSign
  split
  case h_1 => exact ⟨[], .inl rfl, rfl⟩
  case h_2 c s =>
      split
      case isTrue h => exact ⟨[c], .inr (.inl (by rw [h])), rfl⟩
      case isFalse =>
          split
          case isTrue h => exact ⟨[c], .inr (.inr (by rw [h])), rfl⟩
          case isFalse => exact ⟨[], .inl rfl, rfl⟩

theorem isPrefix_nil (conv : Conversion) : IsPrefix conv [] := by
  cases conv
  · exact rfl
  · exact rfl
  · exact .inl rfl

theorem exists_prefix (conv : Conversion) (s : List Byte) :
    ∃ lead, IsPrefix conv lead ∧ s = lead ++ dropPrefix conv s ∧
      (lead = [] → dropPrefix conv s = s) := by
  unfold dropPrefix
  split
  case h_1 z c s =>
      split
      case isTrue h =>
          refine ⟨[z, c], ?_, rfl, fun hnil => absurd hnil (List.cons_ne_nil _ _)⟩
          obtain ⟨rfl, rfl | rfl⟩ := h
          · exact .inr (.inl rfl)
          · exact .inr (.inr rfl)
      case isFalse => exact ⟨[], .inl rfl, rfl, fun _ => rfl⟩
  case h_2 => exact ⟨[], isPrefix_nil _, rfl, fun _ => rfl⟩

theorem exists_digits (b v : ℕ) (s : List Byte) :
    ∃ t, (∀ c ∈ t, (digit? b c).isSome = true) ∧ s = t ++ (scanDigits b v s).2 := by
  induction s generalizing v with
  | nil => exact ⟨[], fun _ h => absurd h List.not_mem_nil, rfl⟩
  | cons c s ih =>
      rw [scanDigits]
      split
      case h_1 d hd =>
          obtain ⟨t, ht, hs⟩ := ih (b * v + d)
          refine ⟨c :: t, ?_, ?_⟩
          · rw [List.forall_mem_cons]
            exact ⟨Option.isSome_iff_exists.2 ⟨d, hd⟩, ht⟩
          · rw [List.cons_append, ← hs]
      case h_2 => exact ⟨[], fun _ h => absurd h List.not_mem_nil, rfl⟩

theorem scanSign_append {sign : List Byte} (hsign : IsSign sign)
    (hs : ∀ c ∈ s.head?, c ≠ ascii '-' ∧ c ≠ ascii '+') : (scanSign (sign ++ s)).2 = s := by
  rcases hsign with rfl | rfl | rfl
  · cases s with
    | nil => rfl
    | cons c s =>
        obtain ⟨hminus, hplus⟩ := hs c rfl
        rw [List.nil_append, scanSign, if_neg hminus, if_neg hplus]
  · rfl
  · rfl

theorem dropPrefix_append {lead : List Byte} (hlead : IsPrefix conv lead)
    (hs : lead = [] → dropPrefix conv s = s) : dropPrefix conv (lead ++ s) = s := by
  cases conv with
  | d =>
      obtain rfl : lead = [] := hlead
      exact hs rfl
  | u =>
      obtain rfl : lead = [] := hlead
      exact hs rfl
  | x =>
      rcases hlead with rfl | rfl | rfl
      · exact hs rfl
      · rfl
      · rfl

/-- Behind a sign stand a prefix or a digit, and neither is a sign or white space. -/
theorem of_head?_number {lead rest : List Byte} {c : Byte} (hlead : IsPrefix conv lead)
    (hc : (digit? conv.base c).isSome = true) :
    ∀ c' ∈ (lead ++ c :: rest).head?,
      isspace c' = false ∧ c' ≠ ascii '-' ∧ c' ≠ ascii '+' := by
  have hdigit : ∀ c' ∈ (c :: rest).head?,
      isspace c' = false ∧ c' ≠ ascii '-' ∧ c' ≠ ascii '+' := by
    rintro c' hc'
    obtain rfl := Option.mem_some_iff.1 hc'
    obtain ⟨hspace, hminus, hplus, -⟩ := of_isSome_digit? hc
    exact ⟨hspace, hminus, hplus⟩
  have hzero : ∀ c' ∈ some (ascii '0'),
      isspace c' = false ∧ c' ≠ ascii '-' ∧ c' ≠ ascii '+' := by
    rintro c' hc'
    obtain rfl := Option.mem_some_iff.1 hc'
    decide
  cases conv with
  | d =>
      obtain rfl : lead = [] := hlead
      exact hdigit
  | u =>
      obtain rfl : lead = [] := hlead
      exact hdigit
  | x =>
      rcases hlead with rfl | rfl | rfl
      · exact hdigit
      · exact hzero
      · exact hzero

/-- White space ends in front of a sign, a prefix or a digit. -/
theorem dropWhile_isspace_number (w : Blank) {sign lead rest : List Byte} {c : Byte}
    (hsign : IsSign sign) (hlead : IsPrefix conv lead)
    (hc : (digit? conv.base c).isSome = true) :
    (w.text ++ (sign ++ (lead ++ c :: rest))).dropWhile isspace =
      sign ++ (lead ++ c :: rest) := by
  have hhead : ∀ c' ∈ (sign ++ (lead ++ c :: rest)).head?, isspace c' = false := by
    rcases hsign with rfl | rfl | rfl
    · exact fun c' hc' => (of_head?_number hlead hc c' hc').1
    · rintro c' hc'
      obtain rfl := Option.mem_some_iff.1 hc'
      decide
    · rintro c' hc'
      obtain rfl := Option.mem_some_iff.1 hc'
      decide
  rw [List.dropWhile_append_of_pos w.isSpace]
  cases hs : sign ++ (lead ++ c :: rest) with
  | nil => rfl
  | cons c' s =>
      rw [hs] at hhead
      exact List.dropWhile_cons_of_neg (by simp [hhead c' rfl])

end Parts

section Accepts

variable {conv : Conversion} {s rest : List Byte} {v : BitVec 32}

/-- A number is read where one begins. -/
theorem isSome_scanNumber_iff : (scanNumber conv s).isSome = true ↔ StartsNumber conv s := by
  constructor
  · intro h
    obtain ⟨sign, hsign, hs⟩ := exists_sign s
    obtain ⟨lead, hlead, hpre, hnil⟩ := exists_prefix conv (scanSign s).2
    rw [scanNumber] at h
    dsimp only at h
    split at h
    case h_1 => cases h
    case h_2 c t heq =>
        split at h
        case isTrue hc =>
            refine ⟨sign, lead, c, t, hsign, hlead, hc, ?_, fun hlead => ?_⟩
            · rwa [hpre, heq] at hs
            · rw [← heq, hnil hlead, hnil hlead]
        case isFalse => cases h
  · rintro ⟨sign, lead, c, t, hsign, hlead, hc, rfl, hnil⟩
    have hrest : (scanSign (sign ++ (lead ++ c :: t))).2 = lead ++ c :: t :=
      scanSign_append hsign fun c' hc' => (of_head?_number hlead hc c' hc').2
    rw [scanNumber]
    dsimp only
    rw [hrest, dropPrefix_append hlead hnil]
    dsimp only
    rw [if_pos hc]
    rfl

theorem isSome_scanNumber (conv : Conversion) (s : List Byte) :
    (scanNumber conv s).isSome = (dropPrefix conv (scanSign s).2).head?.any
      fun c => (digit? conv.base c).isSome := by
  rw [scanNumber]
  dsimp only
  cases dropPrefix conv (scanSign s).2 with
  | nil => rfl
  | cons c t =>
      dsimp only
      rw [List.head?_cons, Option.any_some]
      split
      case isTrue h => exact h.symm
      case isFalse h => exact (Bool.eq_false_iff.2 h).symm

/-- A field of four characters or more holds the beginning of a number. -/
theorem isSome_scanNumber_take (n : ℕ) :
    (scanNumber conv (s.take (n + 4))).isSome = (scanNumber conv s).isSome := by
  have hlead : ∀ (a b c : Byte) (s s' : List Byte),
      (dropPrefix conv (a :: b :: c :: s)).head? =
        (dropPrefix conv (a :: b :: c :: s')).head? := by
    intro a b c s s'
    unfold dropPrefix
    cases conv with
    | d => rfl
    | u => rfl
    | x =>
        dsimp only
        split <;> rfl
  rw [isSome_scanNumber, isSome_scanNumber]
  match s with
  | [] => rfl
  | [_] => rfl
  | [_, _] => rfl
  | [_, _, _] => rfl
  | a :: b :: c :: d :: s =>
      have htake : (a :: b :: c :: d :: s).take (n + 4) = a :: b :: c :: d :: s.take n := rfl
      rw [htake, scanSign, scanSign]
      split
      · rw [hlead b c d _ s]
      · split
        · rw [hlead b c d _ s]
        · rw [hlead a b c _ (d :: s)]

/-- What is read is a field, up to where the rest begins. -/
theorem exists_field (h : scanField conv none s = some (v, rest)) :
    ∃ f : Field conv, s = f.text ++ rest := by
  obtain ⟨w, hw⟩ := exists_blank s
  obtain ⟨sign, hsign, hs⟩ := exists_sign (s.dropWhile isspace)
  obtain ⟨lead, hlead, hpre, -⟩ := exists_prefix conv (scanSign (s.dropWhile isspace)).2
  change scanNumber conv (s.dropWhile isspace) = _ at h
  rw [scanNumber] at h
  dsimp only at h
  split at h
  case h_1 => cases h
  case h_2 c t heq =>
      split at h
      case isTrue hc =>
          obtain rfl := (Prod.ext_iff.1 (Option.some.inj h)).2
          obtain ⟨d, hd⟩ := Option.isSome_iff_exists.1 hc
          have hread : scanDigits conv.base 0 (c :: t) =
              scanDigits conv.base (conv.base * 0 + d) t := by
            rw [scanDigits, hd]
          obtain ⟨ds, hds, ht⟩ := exists_digits conv.base (conv.base * 0 + d) t
          refine ⟨⟨w, sign, hsign, lead, hlead, c :: ds, List.cons_ne_nil c ds, ?_⟩, ?_⟩
          · rw [List.forall_mem_cons]
            exact ⟨hc, hds⟩
          · dsimp only
            rw [hread]
            calc s = w.text ++ (sign ++ (lead ++ c :: t)) := by rw [← heq, ← hpre, ← hs, ← hw]
              _ = w.text ++ (sign ++ (lead ++ c :: (ds ++ (scanDigits conv.base
                    (conv.base * 0 + d) t).2))) := by rw [← ht]
              _ = _ := by simp [Field.text]
      case isFalse => cases h

/-- A field is read where a number ends behind it. -/
theorem scanField_text (f : Field conv) (hs : AtEnd s) :
    ∃ v, scanField conv none (f.text ++ s) = some (v, s) := by
  obtain ⟨c, t, ht⟩ := List.exists_cons_of_ne_nil f.number.ne_nil
  have hc : (digit? conv.base c).isSome = true := f.number.isDigit c (by simp [ht])
  have htext : f.text ++ s =
      f.blank.text ++ (f.sign ++ (f.lead ++ c :: (t ++ s))) := by
    simp [Field.text, ht]
  have hrest : (scanSign (f.sign ++ (f.lead ++ c :: (t ++ s)))).2 = f.lead ++ c :: (t ++ s) :=
    scanSign_append f.isSign fun c' hc' => (of_head?_number f.isPrefix hc c' hc').2
  have hdigits : dropPrefix conv (f.lead ++ c :: (t ++ s)) = c :: (t ++ s) := by
    refine dropPrefix_append f.isPrefix fun _ => ?_
    rw [← List.cons_append, ← ht]
    exact dropPrefix_digits f.number.isDigit hs
  have hscan : scanDigits conv.base 0 (c :: (t ++ s)) =
      (digitsValue conv.base f.number.digits, s) := by
    rw [← List.cons_append, ← ht]
    exact scanDigits_digits f.number.isDigit (hs.noDigit _)
  refine ⟨conv.value (scanSign (f.sign ++ (f.lead ++ c :: (t ++ s)))).1 f.number.value, ?_⟩
  rw [htext, scanField, dropWhile_isspace_number f.blank f.isSign f.isPrefix hc, scanNumber]
  dsimp only
  rw [hrest, hdigits]
  dsimp only
  rw [if_pos hc, hscan]
  rfl

theorem isSome_scanField_iff (n : ℕ) : (scanField conv (some (n + 4)) s).isSome = true ↔
    ∃ (w : Blank) (t : List Byte), s = w.text ++ t ∧ StartsNumber conv t := by
  rw [scanField, Option.isSome_map, isSome_scanNumber_take, isSome_scanNumber_iff]
  constructor
  · intro h
    obtain ⟨w, hw⟩ := exists_blank s
    exact ⟨w, _, hw, h⟩
  · rintro ⟨w, t, rfl, h⟩
    obtain ⟨sign, lead, c, rest, hsign, hlead, hc, rfl, -⟩ := id h
    rwa [dropWhile_isspace_number w hsign hlead hc]

end Accepts

section Formats

variable {fmt : List Directive} {conv : Conversion} {s : List Byte} {c : Byte} {n : ℕ}

theorem lt_length_scan_lit : n < (scan (.lit c :: fmt) s).length ↔
    ∃ rest, s = c :: rest ∧ n < (scan fmt rest).length := by
  constructor
  · intro h
    cases s with
    | nil => exact absurd h (Nat.not_lt_zero n)
    | cons c' s =>
        rw [scan] at h
        split at h
        case isTrue heq => exact ⟨s, by rw [heq], h⟩
        case isFalse => exact absurd h (Nat.not_lt_zero n)
  · rintro ⟨rest, rfl, h⟩
    rwa [scan_lit]

theorem lt_length_scan_space_lit (hc : isspace c = false) :
    n < (scan (.space :: .lit c :: fmt) s).length ↔
      ∃ (w : Blank) (rest : List Byte), s = w.text ++ c :: rest ∧
        n < (scan fmt rest).length := by
  constructor
  · intro h
    rw [scan, lt_length_scan_lit] at h
    obtain ⟨rest, heq, h⟩ := h
    obtain ⟨w, hw⟩ := exists_blank s
    exact ⟨w, rest, by rwa [heq] at hw, h⟩
  · rintro ⟨w, rest, rfl, h⟩
    rwa [scan_space_append _ w.isSpace, scan_space_of_not _ hc, scan_lit]

theorem lt_length_scan_number_lit (hc : EndsNumber c) :
    n + 1 < (scan (.number conv none :: .lit c :: fmt) s).length ↔
      ∃ (f : Field conv) (rest : List Byte), s = f.text ++ c :: rest ∧
        n < (scan fmt rest).length := by
  constructor
  · intro h
    rw [scan] at h
    split at h
    case h_1 => exact absurd h (Nat.not_lt_zero _)
    case h_2 v rest hread =>
        obtain ⟨rest', rfl, hlt⟩ := lt_length_scan_lit.1 (Nat.lt_of_succ_lt_succ h)
        obtain ⟨f, rfl⟩ := exists_field hread
        exact ⟨f, rest', rfl, hlt⟩
  · rintro ⟨f, rest, rfl, h⟩
    obtain ⟨v, hread⟩ := scanField_text f (atEnd_cons hc rest)
    rw [scan_number _ hread, scan_lit]
    exact Nat.succ_lt_succ h

theorem lt_length_scan_width (w : ℕ) :
    0 < (scan (.number conv (some (w + 4)) :: fmt) s).length ↔
      ∃ (b : Blank) (t : List Byte), s = b.text ++ t ∧ StartsNumber conv t := by
  rw [← isSome_scanField_iff w, scan]
  cases scanField conv (some (w + 4)) s with
  | none => exact iff_of_false (Nat.lt_irrefl 0) Bool.false_ne_true
  | some r => exact iff_of_true (Nat.succ_pos _) rfl

end Formats

end Stdio

import Mathlib.Algebra.Group.Nat.Defs
import Casework.Proofs.Lexemes

/-!
Quoted text is read back.

Bytes are quoted piece by piece: a character as it is, or a backslash and a letter, or a
backslash, a letter and hexadecimal digits. Every piece is read back as the bytes it
stands for, and the scanner takes it as a part of the string. So quoted bytes are one
token, whose value is these bytes.
-/

namespace Casework.Text

/-! ## Bytes of characters -/

/-- The bytes that were read as a character, or the one that was not. -/
def spelledBytes : Option Char × UInt8 → List UInt8
  | (some character, _) => String.utf8EncodeChar character
  | (none, byte) => [byte]

theorem continuation?_eq_some {byte : UInt8} {payload : Nat}
    (found : continuation? byte = some payload) :
    byte.toNat = payload + 128 ∧ payload < 64 := by
  unfold continuation? at found
  split at found
  next inRange =>
      have isPayload := Option.some.inj found
      simp only [Bool.and_eq_true, decide_eq_true_eq, UInt8.le_iff_toNat_le,
        UInt8.lt_iff_toNat_lt] at inRange
      have lower : 128 ≤ byte.toNat := inRange.1
      have upper : byte.toNat < 192 := inRange.2
      omega
  next => cases found

theorem codePoint?_eq_some {least code : Nat} {character : Char}
    (found : codePoint? least code = some character) :
    least ≤ code ∧ character.val.toNat = code := by
  unfold codePoint? at found
  split at found
  next valid =>
      simp only [Bool.and_eq_true, decide_eq_true_eq] at valid
      refine ⟨valid.1, ?_⟩
      rw [← Option.some.inj found, Char.ofNat, dif_pos valid.2]
      rfl
  next => cases found

theorem ofNat_eq_of_toNat (byte : UInt8) {value : Nat} (same : byte.toNat = value) :
    UInt8.ofNat value = byte := by
  rw [← same, UInt8.ofNat_toNat]

theorem exists_continuation {rest : List UInt8} {index payload : Nat}
    (taken : rest[index]? >>= continuation? = some payload) :
    ∃ byte, rest[index]? = some byte ∧ byte.toNat = payload + 128 ∧ payload < 64 := by
  rcases Option.bind_eq_some_iff.1 taken with ⟨byte, present, continued⟩
  exact ⟨byte, present, continuation?_eq_some continued⟩

theorem toNat_of_range {byte lower upper : UInt8}
    (inRange : (lower ≤ byte && byte < upper) = true) :
    lower.toNat ≤ byte.toNat ∧ byte.toNat < upper.toNat := by
  simpa only [Bool.and_eq_true, decide_eq_true_eq, UInt8.le_iff_toNat_le,
    UInt8.lt_iff_toNat_lt] using inRange

section Sequences

variable {rest : List UInt8} {first : UInt8} {character : Char}

theorem encode_one (small : first.toNat < 128) :
    String.utf8EncodeChar (Char.ofNat first.toNat) = first :: rest.take 0 := by
  have code : (Char.ofNat first.toNat).val.toNat = first.toNat := by
    rw [Char.ofNat, dif_pos (.inl (by omega))]
    rfl
  simp only [String.utf8EncodeChar, code]
  rw [if_pos (by omega), UInt8.ofNat_toNat, List.take_zero]

theorem encode_two {second : Nat} (bounds : 192 ≤ first.toNat ∧ first.toNat < 224)
    (taken : rest[0]? >>= continuation? = some second)
    (valid : codePoint? 0x80 ((first.toNat - 0xC0) * 64 + second) = some character) :
    String.utf8EncodeChar character = first :: rest.take 1 := by
  rcases exists_continuation taken with ⟨secondByte, present, isSecond, small⟩
  rcases codePoint?_eq_some valid with ⟨least, code⟩
  rcases rest with _ | ⟨_, rest⟩
  · cases present
  cases Option.some.inj present
  simp only [String.utf8EncodeChar, code]
  rw [if_neg (by omega), if_pos (by omega)]
  rw [ofNat_eq_of_toNat first (by omega), ofNat_eq_of_toNat secondByte (by omega)]
  rfl

theorem encode_three {second third : Nat} (bounds : 224 ≤ first.toNat ∧ first.toNat < 240)
    (taken : rest[0]? >>= continuation? = some second)
    (takenThird : rest[1]? >>= continuation? = some third)
    (valid : codePoint? 0x800 (((first.toNat - 0xE0) * 64 + second) * 64 + third) =
      some character) :
    String.utf8EncodeChar character = first :: rest.take 2 := by
  rcases exists_continuation taken with ⟨secondByte, present, isSecond, small⟩
  rcases exists_continuation takenThird with
    ⟨thirdByte, presentThird, isThird, smallThird⟩
  rcases codePoint?_eq_some valid with ⟨least, code⟩
  rcases rest with _ | ⟨_, _ | ⟨_, rest⟩⟩
  · cases present
  · cases presentThird
  cases Option.some.inj present
  cases Option.some.inj presentThird
  simp only [String.utf8EncodeChar, code]
  rw [if_neg (by omega), if_neg (by omega), if_pos (by omega)]
  rw [ofNat_eq_of_toNat first (by omega), ofNat_eq_of_toNat secondByte (by omega),
    ofNat_eq_of_toNat thirdByte (by omega)]
  rfl

theorem encode_four {second third fourth : Nat}
    (bounds : 240 ≤ first.toNat ∧ first.toNat < 248) (taken : rest[0]? >>= continuation? =
      some second) (takenThird : rest[1]? >>= continuation? = some third)
    (takenFourth : rest[2]? >>= continuation? = some fourth)
    (valid : codePoint? 0x10000
      ((((first.toNat - 0xF0) * 64 + second) * 64 + third) * 64 + fourth) =
      some character) :
    String.utf8EncodeChar character = first :: rest.take 3 := by
  rcases exists_continuation taken with ⟨secondByte, present, isSecond, small⟩
  rcases exists_continuation takenThird with
    ⟨thirdByte, presentThird, isThird, smallThird⟩
  rcases exists_continuation takenFourth with
    ⟨fourthByte, presentFourth, isFourth, smallFourth⟩
  rcases codePoint?_eq_some valid with ⟨least, code⟩
  rcases rest with _ | ⟨_, _ | ⟨_, _ | ⟨_, rest⟩⟩⟩
  · cases present
  · cases presentThird
  · cases presentFourth
  cases Option.some.inj present
  cases Option.some.inj presentThird
  cases Option.some.inj presentFourth
  simp only [String.utf8EncodeChar, code]
  rw [if_neg (by omega), if_neg (by omega), if_neg (by omega)]
  rw [ofNat_eq_of_toNat first (by omega), ofNat_eq_of_toNat secondByte (by omega),
    ofNat_eq_of_toNat thirdByte (by omega), ofNat_eq_of_toNat fourthByte (by omega)]
  rfl

end Sequences

/-- A character takes as many bytes as were read for it, and no character takes none. -/
theorem spelledBytes_leading (first : UInt8) (rest : List UInt8) :
    spelledBytes ((leading first rest).1, first) = first ::
      rest.take (leading first rest).2 := by
  unfold leading
  dsimp only
  split
  case h_2 => rfl
  next sequence =>
  dsimp only [spelledBytes]
  split at sequence
  next small =>
      cases sequence
      exact encode_one (UInt8.lt_iff_toNat_lt.1 small)
  split at sequence
  next inRange =>
      rcases Option.bind_eq_some_iff.1 sequence with ⟨second, taken, sequence⟩
      rcases Option.bind_eq_some_iff.1 sequence with ⟨_, valid, ended⟩
      cases ended
      exact encode_two (toNat_of_range inRange) taken valid
  split at sequence
  next inRange =>
      rcases Option.bind_eq_some_iff.1 sequence with ⟨second, taken, sequence⟩
      rcases Option.bind_eq_some_iff.1 sequence with ⟨third, takenThird, sequence⟩
      rcases Option.bind_eq_some_iff.1 sequence with ⟨_, valid, ended⟩
      cases ended
      exact encode_three (toNat_of_range inRange) taken takenThird valid
  split at sequence
  next inRange =>
      rcases Option.bind_eq_some_iff.1 sequence with ⟨second, taken, sequence⟩
      rcases Option.bind_eq_some_iff.1 sequence with ⟨third, takenThird, sequence⟩
      rcases Option.bind_eq_some_iff.1 sequence with ⟨fourth, takenFourth, sequence⟩
      rcases Option.bind_eq_some_iff.1 sequence with ⟨_, valid, ended⟩
      cases ended
      exact encode_four (toNat_of_range inRange) taken takenThird takenFourth valid
  cases sequence

theorem flatMap_decodeAfter (skip : Nat) (bytes : List UInt8) :
    (decodeAfter skip bytes).flatMap spelledBytes = bytes.drop skip := by
  induction bytes generalizing skip with
  | nil => cases skip <;> rfl
  | cons first rest induction =>
      cases skip with
      | succ skip => exact induction skip
      | zero =>
          unfold decodeAfter
          dsimp only
          rw [List.flatMap_cons, spelledBytes_leading, induction, List.cons_append,
            List.take_append_drop, List.drop_zero]

theorem flatMap_decode (bytes : List UInt8) :
    (decode bytes).flatMap spelledBytes = bytes :=
  flatMap_decodeAfter 0 bytes

/-! ## Hexadecimal digits -/

theorem hexValue?_hexDigit {digit : Nat} (small : digit < 16) :
    hexValue? (hexDigit digit) = some digit := by
  have all : ∀ digit < 16, hexValue? (hexDigit digit) = some digit := by decide
  exact all digit small

theorem digits?_add {base : Nat} {value? : Char → Option Nat}
    {count more value total : Nat} {characters rest : List Char}
    (read : digits? base value? count characters value = some (total, rest)) :
    digits? base value? (count + more) characters value =
      digits? base value? more rest total := by
  induction count generalizing characters value with
  | zero =>
      cases read
      rw [Nat.zero_add]
  | succ count induction =>
      cases characters with
      | nil => cases read
      | cons character characters =>
          rcases Option.bind_eq_some_iff.1 read with ⟨digit, isDigit, read⟩
          rw [Nat.succ_add]
          change (value? character >>= fun digit => _) = _
          rw [isDigit]
          exact induction read

theorem digits?_hex (width value total : Nat) (rest : List Char) :
    digits? 16 hexValue? width (hex width value ++ rest) total =
      some (total * 16 ^ width + value % 16 ^ width, rest) := by
  induction width generalizing value rest with
  | zero => simp [digits?, hex, Nat.mod_one]
  | succ width induction =>
      rw [hex, List.append_assoc, digits?_add (induction (value / 16) _)]
      change (hexValue? (hexDigit (value % 16)) >>= fun digit => _) = _
      rw [hexValue?_hexDigit (Nat.mod_lt _ (by decide))]
      change some (_, rest) = _
      have split : value % 16 ^ (width + 1) = value / 16 % 16 ^ width * 16 +
          value % 16 := by
        rw [Nat.pow_succ, Nat.mul_comm, Nat.mod_mul, Nat.mul_comm 16, Nat.add_comm]
      rw [split, Nat.pow_succ, Nat.add_mul, Nat.mul_assoc, Nat.add_assoc]

theorem isSome_hexValue?_of_mem_hex {width value : Nat} {character : Char}
    (isMember : character ∈ hex width value) : (hexValue? character).isSome = true := by
  induction width generalizing value with
  | zero => cases isMember
  | succ width induction =>
      rcases List.mem_append.1 isMember with isFront | isLast
      · exact induction isFront
      · rw [List.mem_singleton.1 isLast, hexValue?_hexDigit (Nat.mod_lt _ (by decide))]
        rfl

theorem length_hex (width value : Nat) : (hex width value).length = width := by
  induction width generalizing value with
  | zero => rfl
  | succ width induction => rw [hex, List.length_append, induction, List.length_singleton]

/-! ## Pieces of quoted text -/

/-- The letters that stand after a backslash for a single byte. -/
def escapeLetters : List Char := ['a', 'b', 'f', 'n', 'r', 't', 'v', '\\', '"']

def codeLetters : List (Char × Nat) := [('x', 2), ('u', 4), ('U', 8)]

/-- A piece of quoted text and the bytes it is read as. -/
inductive IsPiece : List Char → List UInt8 → Prop where
  | plain {character : Char} (notQuote : character ≠ '"') (notEscape : character ≠ '\\')
      (notBreak : character ≠ '\n') (notNul : character.toNat ≠ 0) :
      IsPiece [character] (String.utf8EncodeChar character)
  | letter {letter : Char} {bytes : List UInt8} (isLetter : letter ∈ escapeLetters)
      (reads : ∀ rest, readEscape? (letter :: rest) = some (bytes, rest)) :
      IsPiece ['\\', letter] bytes
  | code {letter : Char} {width value : Nat} {bytes : List UInt8}
    (isCode : (letter, width) ∈ codeLetters)
      (reads : ∀ rest, readEscape? (letter :: (hex width value ++ rest)) =
        some (bytes, rest)) :
      IsPiece ('\\' :: letter :: hex width value) bytes

theorem readEscape?_byte {value : Nat} (small : value < 256) (rest : List Char) :
    readEscape? ('x' :: (hex 2 value ++ rest)) = some ([value.toUInt8], rest) := by
  change (digits? 16 hexValue? 2 (hex 2 value ++ rest) 0 >>= fun read =>
    some ([read.1.toUInt8], read.2)) = _
  have bounded : value < 16 ^ 2 := small
  rw [digits?_hex, Nat.zero_mul, Nat.zero_add, Nat.mod_eq_of_lt bounded]
  rfl

theorem codePointBytes?_toNat (character : Char) :
    codePointBytes? character.toNat = some (String.utf8EncodeChar character) := by
  have valid : character.toNat.isValidChar := character.valid
  rw [codePointBytes?, if_pos valid, Char.ofNat_toNat]

theorem read_codePoint {width : Nat} {character : Char}
    (small : character.toNat < 16 ^ width) (rest : List Char) :
    (do
      let (value, rest) ← digits? 16 hexValue? width (hex width character.toNat ++ rest) 0
      some (← codePointBytes? value, rest)) =
        some (String.utf8EncodeChar character, rest) := by
  rw [digits?_hex, Nat.zero_mul, Nat.zero_add, Nat.mod_eq_of_lt small]
  change (codePointBytes? character.toNat >>= fun bytes => some (bytes, rest)) = _
  rw [codePointBytes?_toNat]
  rfl

theorem isPiece_showByte (byte : UInt8) : IsPiece (showByte byte) [byte] := by
  refine .code (by decide) fun rest => ?_
  rw [readEscape?_byte byte.toNat_lt]
  simp

theorem isPiece_controlLetter {character letter : Char}
    (found : controlLetter? character = some letter) :
    IsPiece ['\\', letter] (String.utf8EncodeChar character) := by
  have same (code : Nat) (isCode : character.toNat = code) : character =
      Char.ofNat code := by
    rw [← isCode, Char.ofNat_toNat]
  unfold controlLetter? at found
  split at found
  case h_8 => cases found
  all_goals
    next isCode =>
      cases found
      rw [same _ isCode]
      exact .letter (by decide) fun _ => rfl

theorem isPiece_showChar (character : Char) :
    IsPiece (showChar '"' character) (String.utf8EncodeChar character) := by
  unfold showChar
  split
  next isSpecial =>
      rcases Bool.or_eq_true_iff.1 isSpecial with isQuote | isEscape
      · cases of_decide_eq_true isQuote
        exact .letter (by decide) fun _ => rfl
      · cases of_decide_eq_true isEscape
        exact .letter (by decide) fun _ => rfl
  next notSpecial =>
      simp only [Bool.or_eq_true, decide_eq_true_eq, not_or] at notSpecial
      split
      next printable =>
          refine .plain notSpecial.1 notSpecial.2 ?_ ?_
          · rintro rfl
            revert printable
            decide
          · intro isNul
            have same : character = Char.ofNat 0 := by rw [← isNul, Char.ofNat_toNat]
            subst same
            revert printable
            decide
      next notPrintable =>
          split
          next letter found => exact isPiece_controlLetter found
          next =>
              have below : character.toNat < 0x110000 := by
                rcases character.valid with low | ⟨_, high⟩
                · exact Nat.lt_trans low (by decide)
                · exact high
              dsimp only
              split
              next small =>
                  refine .code (by decide) fun rest => ?_
                  rw [readEscape?_byte (by omega), String.utf8EncodeChar]
                  have atMost : character.val.toNat ≤ 127 := Nat.le_of_lt_succ small
                  simp only [if_pos atMost]
                  rfl
              next =>
                  split
                  next small =>
                      exact .code (by decide) fun rest => read_codePoint small rest
                  next =>
                      exact .code (by decide) fun rest => read_codePoint (by omega) rest

theorem IsPiece.readBody? {piece : List Char} {bytes following : List UInt8}
    (isPiece : IsPiece piece bytes) {fuel : Nat} {rest : List Char}
    (read : Text.readBody? fuel rest = some following) :
    Text.readBody? (fuel + 1) (piece ++ rest) = some (bytes ++ following) := by
  have escaped {letter : Char} {further : List Char}
      (reads : readEscape? (letter :: further) = some (bytes, rest)) :
      Text.readBody? (fuel + 1) ('\\' :: letter :: further) =
      some (bytes ++ following) := by
    change (readEscape? (letter :: further) >>= fun escaped =>
      Text.readBody? fuel escaped.2 >>= fun following => some (escaped.1 ++ following)) =
        _
    rw [reads]
    change (Text.readBody? fuel rest >>= fun following => some (bytes ++ following)) = _
    rw [read]
    rfl
  cases isPiece with
  | plain notQuote notEscape notBreak notNul =>
      rw [List.cons_append, List.nil_append, Text.readBody?,
        if_neg (by simp [notQuote, notBreak]), if_neg notEscape, read]
      · rfl
      · exact fun isQuote => absurd isQuote notQuote
  | letter isLetter reads => exact escaped (reads rest)
  | code isCode reads => exact escaped (reads rest)

def shown : Option Char × UInt8 → List Char
  | (some character, _) => showChar '"' character
  | (none, byte) => showByte byte

theorem isPiece_shown (item : Option Char × UInt8) :
    IsPiece (shown item) (spelledBytes item) := by
  rcases item with ⟨_ | character, byte⟩
  · exact isPiece_showByte byte
  · exact isPiece_showChar character

theorem quoteBytes_toList (bytes : List UInt8) :
    (quoteBytes bytes).toList = '"' :: ((decode bytes).flatMap shown ++ ['"']) := by
  rw [quoteBytes, String.toList_ofList]
  refine congrArg (fun shown => '"' :: ((decode bytes).flatMap shown ++ ['"']))
    (funext fun item => ?_)
  rcases item with ⟨_ | character, byte⟩ <;> rfl

theorem readBody?_shown (items : List (Option Char × UInt8)) {fuel : Nat}
    (enough : items.length < fuel) :
    readBody? fuel (items.flatMap shown ++ ['"']) =
      some (items.flatMap spelledBytes) := by
  induction items generalizing fuel with
  | nil =>
      cases fuel with
      | zero => cases enough
      | succ fuel => rfl
  | cons item items induction =>
      cases fuel with
      | zero => cases enough
      | succ fuel =>
          rw [List.flatMap_cons, List.flatMap_cons, List.append_assoc]
          exact (isPiece_shown item).readBody? (induction (Nat.lt_of_succ_lt_succ enough))

theorem IsPiece.length_pos {piece : List Char} {bytes : List UInt8}
    (isPiece : IsPiece piece bytes) :
    0 < piece.length := by
  cases isPiece <;> exact Nat.succ_pos _

theorem length_le_flatMap_shown (items : List (Option Char × UInt8)) :
    items.length ≤ (items.flatMap shown).length := by
  induction items with
  | nil => exact Nat.le_refl _
  | cons item items induction =>
      have positive := (isPiece_shown item).length_pos
      rw [List.flatMap_cons, List.length_append, List.length_cons]
      omega

theorem unquote?_quoteBytes (bytes : List UInt8) :
    unquote? (quoteBytes bytes) = some bytes := by
  rw [unquote?, quoteBytes_toList]
  change readBody? (_ + 1) ((decode bytes).flatMap shown ++ ['"']) = _
  rw [readBody?_shown, flatMap_decode]
  have short := length_le_flatMap_shown (decode bytes)
  rw [List.length_append]
  omega

end Casework.Text

namespace Casework.Token

open Text

/-! ## Scanning -/

variable {place : Option Position} {glyphs rest : List Glyph}

theorem escapeDigits_spelled {digit? : Char → Option Nat} {digits : List Char}
    (spelled : Spells glyphs digits rest) (noNul : NoNul digits)
    (all : ∀ character ∈ digits, (digit? character).isSome = true)
    (checked : Checked rest) :
    escapeDigits place digit? digits.length glyphs = .ok (digits, rest) := by
  induction digits generalizing glyphs with
  | nil =>
      cases spelled
      rfl
  | cons digit digits induction =>
      rcases spelled with ⟨position, following, rfl, spelled⟩
      rcases List.forall_mem_cons.1 all with ⟨isDigit, all⟩
      rcases List.forall_mem_cons.1 noNul with ⟨_, noNul⟩
      have present : (current? (⟨some digit, position⟩ :: following)).filter
          (fun character => (digit? character).isSome) = some digit := by
        rw [current?, List.head?_cons, Option.bind_some,
          Option.filter_some, if_pos isDigit]
      rw [List.length_cons, escapeDigits, present]
      dsimp only
      rw [advance_cons (spelled.checked noNul checked)]
      change escapeDigits place digit? digits.length following >>= _ = _
      rw [induction spelled noNul all]
      rfl

theorem scanEscape_letter {letter : Char} (isLetter : letter ∈ escapeLetters)
    (spelled : Spells glyphs [letter] rest) (checked : Checked rest) :
    scanEscape place glyphs = .ok ([letter], rest) := by
  rcases spelled with ⟨position, _, rfl, rfl⟩
  rw [scanEscape]
  change (if letter ∈ escapeLetters then _ else _) = _
  rw [if_pos isLetter, advance_cons checked]
  rfl

theorem scanEscape_code {letter : Char} {width : Nat} {digits : List Char}
    (isCode : (letter, width) ∈ codeLetters) (length : digits.length = width)
    (spelled : Spells glyphs (letter :: digits) rest) (noNul : NoNul digits)
    (all : ∀ character ∈ digits, (hexValue? character).isSome = true)
    (checked : Checked rest) :
    scanEscape place glyphs = .ok (letter :: digits, rest) := by
  rcases spelled with ⟨position, following, rfl, spelled⟩
  have scanned : escapeDigits place hexValue? width following = .ok (digits, rest) :=
    length ▸ escapeDigits_spelled spelled noNul all checked
  have taken : (do
      let rest ← advance place (⟨some letter, position⟩ :: following)
      let taken ← escapeDigits place Text.hexValue? width rest
      return (letter :: taken.1, taken.2)) = .ok (letter :: digits, rest) := by
    rw [advance_cons (spelled.checked noNul checked)]
    change escapeDigits place hexValue? width following >>= _ = _
    rw [scanned]
    rfl
  simp only [codeLetters, List.mem_cons, List.not_mem_nil, or_false,
    Prod.mk.injEq] at isCode
  rcases isCode with ⟨rfl, rfl⟩ | ⟨rfl, rfl⟩ | ⟨rfl, rfl⟩ <;> exact taken

theorem noNul_hex (width value : Nat) : NoNul (hex width value) := fun _ isMember =>
  toNat_ne_zero_of_continuesName
    (continuesName_of_hexValue? (isSome_hexValue?_of_mem_hex isMember))

theorem noNul_of_isPiece {piece : List Char} {bytes : List UInt8}
    (isPiece : IsPiece piece bytes) :
    NoNul piece := by
  have lettersNotNul : ∀ letter ∈ escapeLetters, letter.toNat ≠ 0 := by
    simp [escapeLetters]
  have codesNotNul : ∀ code ∈ codeLetters, code.1.toNat ≠ 0 := by simp [codeLetters]
  cases isPiece with
  | plain _ _ _ notNul => exact List.forall_mem_singleton.2 notNul
  | letter isLetter _ =>
      exact List.forall_mem_cons.2
        ⟨by decide, List.forall_mem_singleton.2 (lettersNotNul _ isLetter)⟩
  | code isCode _ =>
      exact List.forall_mem_cons.2
        ⟨by decide, List.forall_mem_cons.2 ⟨codesNotNul _ isCode, noNul_hex _ _⟩⟩

theorem scanString_piece {piece : List Char} {bytes : List UInt8}
    (isPiece : IsPiece piece bytes) {fuel : Nat} {middle : List Glyph}
    {following : List Char} (spelled : Spells glyphs piece middle)
    (checked : Checked middle)
    (scanned : scanString place fuel middle = .ok (following, rest)) :
    scanString place (fuel + 1) glyphs = .ok (piece ++ following, rest) := by
  have noNul := noNul_of_isPiece isPiece
  -- A backslash and the escape after it.
  have escaped {position : Position} {further : List Glyph} {taken : List Char}
      (furtherChecked : Checked further)
      (scannedEscape : scanEscape place further = .ok (taken, middle)) :
      scanString place (fuel + 1) (⟨some '\\', position⟩ :: further) =
        .ok ('\\' :: taken ++ following, rest) := by
    rw [scanString]
    change advance place (⟨some '\\', position⟩ :: further) >>= _ = _
    rw [advance_cons furtherChecked]
    change scanEscape place further >>= _ = _
    rw [scannedEscape]
    change scanString place fuel middle >>= _ = _
    rw [scanned]
    rfl
  cases isPiece with
  | @plain character notQuote notEscape notBreak notNul =>
      rcases spelled with ⟨position, _, rfl, rfl⟩
      rw [scanString]
      change (if (character == '\n') = true then _ else _) = _
      rw [if_neg (by simpa using notBreak), advance_cons checked]
      change (if (character == '"') = true then _ else _) = _
      rw [if_neg (by simpa using notQuote)]
      dsimp only
      rw [if_neg (by simpa using notEscape)]
      change scanString place fuel _ >>= _ = _
      rw [scanned]
      rfl
  | letter isLetter _ =>
      rcases spelled with ⟨position, further, rfl, spelled⟩
      have furtherChecked := spelled.checked (List.forall_mem_cons.1 noNul).2 checked
      exact escaped furtherChecked (scanEscape_letter isLetter spelled checked)
  | code isCode _ =>
      rcases spelled with ⟨position, further, rfl, spelled⟩
      have furtherChecked := spelled.checked (List.forall_mem_cons.1 noNul).2 checked
      exact escaped furtherChecked
        (scanEscape_code isCode (length_hex _ _) spelled (noNul_hex _ _)
          (fun _ => isSome_hexValue?_of_mem_hex) checked)

theorem noNul_shown (items : List (Option Char × UInt8)) :
    NoNul (items.flatMap shown ++ ['"']) := by
  refine NoNul.append (fun character isMember => ?_)
    (List.forall_mem_singleton.2 (by decide))
  rcases List.mem_flatMap.1 isMember with ⟨item, _, isShown⟩
  exact noNul_of_isPiece (isPiece_shown item) character isShown

theorem scanString_shown (items : List (Option Char × UInt8)) {fuel : Nat}
    (enough : items.length < fuel) (spelled : Spells glyphs (items.flatMap shown ++ ['"'])
      rest) (checked : Checked rest) :
    scanString place fuel glyphs = .ok (items.flatMap shown ++ ['"'], rest) := by
  induction items generalizing fuel glyphs with
  | nil =>
      cases fuel with
      | zero => cases enough
      | succ fuel =>
          rcases spelled with ⟨position, _, rfl, rfl⟩
          rw [scanString]
          change advance place (⟨some '"', position⟩ :: _) >>= _ = _
          rw [advance_cons checked]
          rfl
  | cons item items induction =>
      cases fuel with
      | zero => cases enough
      | succ fuel =>
          rw [List.flatMap_cons, List.append_assoc] at spelled ⊢
          rcases spelled.split with ⟨middle, itemSpelled, spelled⟩
          have itemsChecked := spelled.checked (noNul_shown items) checked
          exact scanString_piece (isPiece_shown item) itemSpelled itemsChecked
            (induction (Nat.lt_of_succ_lt_succ enough) spelled)

end Casework.Token

import Jarsmith.ClassFile.SignaturePass
import Jarsmith.Proofs.ClassFile.SignatureNames
import Jarsmith.Proofs.Text.Utf8

/-!
# A pass over a signature

The pass over the bytes of a text goes where the reader of signatures goes, and writes what the
renamed signature writes. So it ends, and never cuts inside a character.

* `SignaturePass.nameTo_eq` — a name is cut out between characters.
* `SignaturePass.Rewrites` — a step of the pass beside a step of the reader.
* `SignaturePass.rewrites_depth`, `SignaturePass.rewrites_rounds` — calls and loops, under any bound
  that is large enough.
* `SignaturePass.run_eq` — the pass is the reading, the renaming and the writing of a signature.
* `SignaturePass.renaming_spec` — what a renaming makes of any text.
-/

namespace Jarsmith.SignaturePass

open Signature (byteCount Step identifier)

-- ---------------------------------------------------------------------------
-- Bytes of a text
-- ---------------------------------------------------------------------------

/-- The bytes of a text. -/
def bytesOf (text : List Char) : Bytes := text.flatMap String.utf8EncodeChar

theorem bytesOf_append (front text : List Char) :
    bytesOf (front ++ text) = bytesOf front ++ bytesOf text := List.flatMap_append

theorem byteCount_eq (text : List Char) : byteCount text = (bytesOf text).length := by
  have hFold : ∀ (n : Nat) (text : List Char),
      text.foldl (fun n c => n + c.utf8Size) n = n + (bytesOf text).length := by
    intro n text
    induction text generalizing n with
    | nil => rfl
    | cons c more ih =>
      rw [List.foldl_cons, ih, bytesOf, bytesOf, List.flatMap_cons, List.length_append,
        String.length_utf8EncodeChar, Nat.add_assoc]
  exact (hFold 0 text).trans (Nat.zero_add _)

theorem byteCount_append (front text : List Char) :
    byteCount (front ++ text) = byteCount front + byteCount text := by
  rw [byteCount_eq, byteCount_eq, byteCount_eq, bytesOf_append, List.length_append]

theorem byteCount_cons (c : Char) (text : List Char) :
    byteCount (c :: text) = (String.utf8EncodeChar c).length + byteCount text := by
  rw [byteCount_eq, byteCount_eq, bytesOf, List.flatMap_cons, List.length_append]
  rfl

theorem length_le_byteCount (text : List Char) : text.length ≤ byteCount text := by
  induction text with
  | nil => exact Nat.zero_le _
  | cons c more ih =>
    have := List.length_pos_iff.2 (String.utf8EncodeChar_ne_nil (c := c))
    rw [List.length_cons, byteCount_cons]
    omega

/-- The first byte of a character. -/
def firstByte (c : Char) : UInt8 := (String.utf8EncodeChar c).headD 0

/-- An ASCII character is told by its first byte. -/
theorem firstByte_eq {c k : Char} (hk : k.toNat < 0x80) : firstByte c = byte k ↔ c = k := by
  have hByte : (byte k).toNat = k.toNat := ModifiedUtf8.toNat_ofNat (by omega)
  have hNat : ∀ {c d : Char}, c.toNat = d.toNat → c = d := fun {c d} h => by
    rw [← Char.ofNat_toNat c, ← Char.ofNat_toNat d, h]
  unfold firstByte
  rw [← UInt8.toNat_inj, hByte]
  obtain ⟨hLow, hEncode⟩ | ⟨hHigh, b, more, hEncode, -, hAll⟩ := Utf8.encodeChar_cases c
  · rw [hEncode, List.headD_cons, ModifiedUtf8.toNat_ofNat (by omega)]
    exact ⟨hNat, fun h => h ▸ rfl⟩
  · have hFirst := hAll b List.mem_cons_self
    rw [hEncode, List.headD_cons]
    constructor
    · omega
    · rintro rfl
      omega

theorem firstByte_mem {c : Char} {list : List Char} (hList : ∀ k ∈ list, k.toNat < 0x80) :
    firstByte c ∈ list.map byte ↔ c ∈ list := by
  rw [List.mem_map]
  constructor
  · rintro ⟨k, hk, hEq⟩
    rwa [(firstByte_eq (hList k hk)).1 hEq.symm]
  · exact fun hc => ⟨c, hc, ((firstByte_eq (hList c hc)).2 rfl).symm⟩

-- ---------------------------------------------------------------------------
-- Where a pass is
-- ---------------------------------------------------------------------------

variable {whole text rest pre : List Char} {α β : Type}

/-- The offset of what is left of a text. -/
def offset (whole text : List Char) : Nat := byteCount whole - byteCount text

theorem offset_of_suffix {front : List Char} : offset (front ++ text) text = byteCount front := by
  rw [offset, byteCount_append, Nat.add_sub_cancel]

theorem getElem?_offset (hText : text <:+ whole) :
    (bytesOf whole)[offset whole text]? = text.head?.map firstByte := by
  obtain ⟨front, rfl⟩ := hText
  rw [offset_of_suffix, bytesOf_append, byteCount_eq, List.getElem?_append_right (Nat.le_refl _),
    Nat.sub_self]
  cases text with
  | nil => rfl
  | cons c more =>
    show (String.utf8EncodeChar c ++ _)[0]? = some ((String.utf8EncodeChar c).headD 0)
    cases hEncode : String.utf8EncodeChar c with
    | nil => exact absurd hEncode String.utf8EncodeChar_ne_nil
    | cons b bytes => rfl

theorem peek_eq (hText : text <:+ whole) : peek (bytesOf whole) ⟨offset whole text, pre⟩ =
    .ok (text.head?.map firstByte, ⟨offset whole text, pre⟩) :=
  congrArg (fun b => Except.ok (b, (⟨offset whole text, pre⟩ : Place))) (getElem?_offset hText)

section Steps

variable {m : Pass α} {k : α → Pass β} {a : α} {place place' : Place}

theorem bind_of_ok (h : m place = .ok (a, place')) : (m >>= k) place = k a place' := by
  show (m place >>= _) = _
  rw [h]
  rfl

theorem bind_of_error {halt : Halt} (h : m place = .error halt) :
    (m >>= k) place = .error halt := by
  show (m place >>= _) = _
  rw [h]
  rfl

end Steps

/-- A byte is copied; if it is an ASCII character, that character is. -/
theorem copy_eq (pre : List Char) {c : Char} (hText : c :: text <:+ whole) : ∃ written,
    copy (bytesOf whole) ⟨offset whole (c :: text), pre⟩ =
      .ok (firstByte c, ⟨offset whole (c :: text) + 1, pre ++ [written]⟩) ∧
    (c.toNat < 0x80 → written = c ∧ offset whole (c :: text) + 1 = offset whole text) := by
  refine ⟨Char.ofNat (firstByte c).toNat, ?_, fun hc => ?_⟩
  · unfold copy
    rw [bind_of_ok (peek_eq hText)]
    rfl
  · obtain ⟨-, hEncode⟩ | ⟨hHigh, -⟩ := Utf8.encodeChar_cases c
    · refine ⟨?_, ?_⟩
      · rw [(firstByte_eq hc).2 rfl, byte, ModifiedUtf8.toNat_ofNat (by omega), Char.ofNat_toNat]
      · obtain ⟨front, rfl⟩ := hText
        rw [offset_of_suffix, List.append_cons, offset_of_suffix, byteCount_append, byteCount_cons,
          hEncode]
        rfl
    · omega

theorem copy_nil (hText : [] <:+ whole) :
    copy (bytesOf whole) ⟨offset whole [], pre⟩ = .error (.malformed (byteCount whole)) := by
  unfold copy
  rw [bind_of_ok (peek_eq hText)]
  rfl

/-- What follows a copied ASCII character. -/
theorem copy_bind {c : Char} {k : UInt8 → Pass β} (hText : c :: text <:+ whole)
    (hc : c.toNat < 0x80) : (copy (bytesOf whole) >>= k) ⟨offset whole (c :: text), pre⟩ =
      k (byte c) ⟨offset whole text, pre ++ [c]⟩ := by
  obtain ⟨written, hCopy, hSame⟩ := copy_eq pre hText
  obtain ⟨rfl, hOffset⟩ := hSame hc
  rw [bind_of_ok hCopy, hOffset, (firstByte_eq hc).2 rfl]

-- ---------------------------------------------------------------------------
-- Names
-- ---------------------------------------------------------------------------

/-- What a pass makes of a step of the reader: it writes `post` of what the step gives, and where the
step stops, the pass reports the offset. -/
def answer (whole : List Char) (post : α → List Char) (val : α → β) :
    Except Nat (α × List Char) → Except Halt (β × Place)
  | .ok (a, rest) => .ok (val a, ⟨offset whole rest, post a⟩)
  | .error left => .error (.malformed (byteCount whole - left))

section Names

variable {stops : List Char} {bound : Nat} {input : Bytes}

/-- Bytes that are no stops are skipped. -/
theorem skipTo_bytes {bytes : Bytes} {start : Nat}
    (hBytes : ∀ i b, bytes[i]? = some b → input[start + i]? = some b)
    (hNot : ∀ b ∈ bytes, b ∉ stops.map byte) :
    skipTo input stops (bound + bytes.length) ⟨start, pre⟩ =
      skipTo input stops bound ⟨start + bytes.length, pre⟩ := by
  induction bytes generalizing start with
  | nil => rfl
  | cons b more ih =>
    obtain ⟨hFirst, hMore⟩ := List.forall_mem_cons.1 hNot
    have hPeek : peek input ⟨start, pre⟩ = .ok (some b, ⟨start, pre⟩) :=
      congrArg (fun b => Except.ok (b, (⟨start, pre⟩ : Place))) (hBytes 0 b rfl)
    have hLater : ∀ i d, more[i]? = some d → input[start + 1 + i]? = some d := fun i d hd => by
      have hByte := hBytes (i + 1) d hd
      rwa [Nat.add_assoc, Nat.add_comm 1 i]
    rw [List.length_cons, ← Nat.add_assoc, skipTo, bind_of_ok hPeek, Nat.add_comm more.length,
      ← Nat.add_assoc]
    dsimp only
    rw [if_neg hFirst]
    exact ih hLater hMore

/-- No byte of a character that is no stop is one. -/
theorem not_mem_stops (hStops : ∀ k ∈ stops, k.toNat < 0x80) {c : Char} (hc : c ∉ stops) :
    ∀ b ∈ String.utf8EncodeChar c, b ∉ stops.map byte := by
  obtain ⟨hLow, hEncode⟩ | ⟨hHigh, b, more, hEncode, -, hAll⟩ := Utf8.encodeChar_cases c
  · have hFirst : firstByte c = UInt8.ofNat c.toNat := by rw [firstByte, hEncode]; rfl
    rw [hEncode]
    intro b hb
    rw [List.mem_singleton.1 hb, ← hFirst, firstByte_mem hStops]
    exact hc
  · rw [hEncode]
    intro d hd hStop
    obtain ⟨k, hk, rfl⟩ := List.mem_map.1 hStop
    have hLarge := hAll _ hd
    have hSmall := hStops k hk
    rw [byte, ModifiedUtf8.toNat_ofNat (by omega)] at hLarge
    omega

theorem skipTo_eq (pre : List Char) (hStops : ∀ k ∈ stops, k.toNat < 0x80) (hText : text <:+ whole)
    (hBound : byteCount text < bound) : skipTo (bytesOf whole) stops bound ⟨offset whole text, pre⟩ =
      answer whole (fun _ => pre) (fun _ => ()) (identifier stops text) := by
  induction text generalizing bound with
  | nil =>
    obtain ⟨bound, rfl⟩ := Nat.exists_eq_add_one.2 (Nat.zero_lt_of_lt hBound)
    rw [skipTo, bind_of_ok (peek_eq hText)]
    rfl
  | cons c more ih =>
    rw [identifier]
    by_cases hc : c ∈ stops
    · obtain ⟨bound, rfl⟩ := Nat.exists_eq_add_one.2 (Nat.zero_lt_of_lt hBound)
      rw [if_pos hc, skipTo, bind_of_ok (peek_eq hText)]
      exact congrFun (if_pos ((firstByte_mem hStops).2 hc)) _
    · rw [byteCount_cons] at hBound
      have hMore : more <:+ whole := (List.suffix_cons c more).trans hText
      obtain ⟨bound, rfl⟩ : ∃ b, bound = b + (String.utf8EncodeChar c).length :=
        ⟨_, (Nat.sub_add_cancel (by omega)).symm⟩
      have hOffset : offset whole (c :: more) + (String.utf8EncodeChar c).length =
          offset whole more := by
        obtain ⟨front, rfl⟩ := hText
        rw [offset_of_suffix, List.append_cons, offset_of_suffix, byteCount_append, byteCount_cons]
        rfl
      have hBytes : ∀ i b, (String.utf8EncodeChar c)[i]? = some b →
          (bytesOf whole)[offset whole (c :: more) + i]? = some b := by
        obtain ⟨front, rfl⟩ := hText
        intro i b hb
        obtain ⟨hi, -⟩ := List.getElem?_eq_some_iff.1 hb
        rw [offset_of_suffix, bytesOf_append, byteCount_eq,
          List.getElem?_append_right (Nat.le_add_right _ _), Nat.add_sub_cancel_left]
        exact (List.getElem?_append_left hi).trans hb
      rw [if_neg hc, skipTo_bytes hBytes (not_mem_stops hStops hc), hOffset,
        ih hMore (by omega)]
      cases identifier stops more with
      | error left => rfl
      | ok found => rfl

theorem isBoundary_offset (hText : text <:+ whole) (hSome : text ≠ []) :
    isBoundary (bytesOf whole) (offset whole text) = true := by
  obtain ⟨c, more, rfl⟩ := List.exists_cons_of_ne_nil hSome
  rw [isBoundary, getElem?_offset hText, List.head?_cons, Option.map_some]
  obtain ⟨hLow, hEncode⟩ | ⟨-, b, bytes, hEncode, hLead, -⟩ := Utf8.encodeChar_cases c
  · have hByte : (firstByte c).toNat = c.toNat := by
      rw [firstByte, hEncode, List.headD_cons, ModifiedUtf8.toNat_ofNat (by omega)]
    simp [hByte, hLow]
  · simp [firstByte, hEncode, hLead]

/-- **No piece of the text is torn**: a name starts and ends between characters. -/
theorem nameTo_eq (pre : List Char) (hStops : ∀ k ∈ stops, k.toNat < 0x80) (hText : text <:+ whole)
    (hBound : byteCount text < bound) : nameTo (bytesOf whole) stops bound ⟨offset whole text, pre⟩ =
      answer whole (fun _ => pre) String.ofList (identifier stops text) := by
  have hSkip := skipTo_eq pre hStops hText hBound
  unfold nameTo
  rw [bind_of_ok (a := (⟨offset whole text, pre⟩ : Place)) rfl]
  cases hName : identifier stops text with
  | error left =>
    rw [hName] at hSkip
    exact bind_of_error hSkip
  | ok found =>
    obtain ⟨name, rest⟩ := found
    rw [hName] at hSkip
    rw [bind_of_ok hSkip, bind_of_ok (a := (⟨offset whole rest, pre⟩ : Place)) rfl]
    obtain ⟨-, rfl, c, -, more, rfl⟩ := Signature.identifier_eq_ok.1 hName
    have hRest : c :: more <:+ whole := (List.suffix_append name _).trans hText
    have hStart := isBoundary_offset hText (by simp)
    have hStop := isBoundary_offset hRest (List.cons_ne_nil c more)
    obtain ⟨front, rfl⟩ := hText
    have hOffset : offset (front ++ (name ++ c :: more)) (c :: more) =
        byteCount front + byteCount name := by
      rw [← List.append_assoc, offset_of_suffix, byteCount_append]
    have hPiece : ((bytesOf (front ++ (name ++ c :: more))).drop (byteCount front)).take
        (byteCount name) = bytesOf name := by
      rw [bytesOf_append, bytesOf_append, byteCount_eq, byteCount_eq, List.drop_left,
        List.take_left]
    have hLenient : Utf8.lenient (bytesOf name) = String.ofList name := by
      rw [← Utf8.lenient_encode (String.ofList name), Utf8.encode, String.toList_ofList]
      rfl
    rw [hOffset] at hStop ⊢
    rw [offset_of_suffix] at hStart ⊢
    dsimp only
    rw [slice, if_pos ⟨Nat.le_add_right _ _, hStart, hStop⟩, Nat.add_sub_cancel_left, hPiece,
      hLenient]
    show Except.ok (String.ofList name, (⟨byteCount front + byteCount name, pre⟩ : Place)) = _
    rw [← hOffset]
    rfl

end Names

-- ---------------------------------------------------------------------------
-- What a pass writes
-- ---------------------------------------------------------------------------

/-- From a text on, a pass that has just written `lead` does what a step of the reader with this
result does: it stops where the step stops, and where the step gives `a`, the pass has written `w a`
from the start of `lead` on. -/
def Rewrites (whole lead : List Char) (m : Pass Unit) (text : List Char)
    (result : Except Nat (α × List Char)) (w : α → List Char) : Prop :=
  ∀ pre, m ⟨offset whole text, pre ++ lead⟩ =
    answer whole (fun a => pre ++ w a) (fun _ => ()) result

namespace Rewrites

variable {lead : List Char} {m : Pass Unit} {result : Except Nat (α × List Char)}
  {x : Step α} {y : α → Step β} {v : α → List Char} {w : β → List Char}

/-- Nothing is left to write. -/
theorem done {b : β} (hWritten : w b = lead) :
    Rewrites whole lead (pure ()) text (.ok (b, text)) w := by
  intro pre
  show Except.ok ((), (⟨offset whole text, pre ++ lead⟩ : Place)) = _
  rw [← hWritten]
  rfl

theorem copied {c : Char} {k : UInt8 → Pass Unit} {result : Except Nat (β × List Char)}
    (hText : c :: text <:+ whole) (hc : c.toNat < 0x80)
    (hk : Rewrites whole (lead ++ [c]) (k (byte c)) text result w) :
    Rewrites whole lead (copy (bytesOf whole) >>= k) (c :: text) result w := by
  intro pre
  rw [copy_bind hText hc, List.append_assoc]
  exact hk pre

theorem peeked {k : Option UInt8 → Pass Unit} {result : Except Nat (β × List Char)}
    (hText : text <:+ whole) (hk : Rewrites whole lead (k (text.head?.map firstByte)) text result w) :
    Rewrites whole lead (peek (bytesOf whole) >>= k) text result w := by
  intro pre
  rw [bind_of_ok (peek_eq hText)]
  exact hk pre

theorem failed : Rewrites whole lead fail text (.error (byteCount text)) w := fun _ => rfl

theorem wrote {name : String} {k : Unit → Pass Unit} {result : Except Nat (β × List Char)}
    (hk : Rewrites whole (lead ++ name.toList) (k ()) text result w) :
    Rewrites whole lead (write name >>= k) text result w := by
  intro pre
  show k () ⟨offset whole text, pre ++ lead ++ name.toList⟩ = _
  rw [List.append_assoc]
  exact hk pre

/-- A name that both cut out is known to what follows. -/
theorem named {stops : List Char} {bound : Nat} {k : String → Pass Unit}
    {y : List Char → Step β} (hStops : ∀ k ∈ stops, k.toNat < 0x80) (hText : text <:+ whole)
    (hBound : byteCount text < bound) (hk : ∀ name rest, identifier stops text = .ok (name, rest) →
      Rewrites whole lead (k (String.ofList name)) rest (y name rest) w) :
    Rewrites whole lead (nameTo (bytesOf whole) stops bound >>= k) text
      ((identifier stops >>= y) text) w := by
  intro pre
  have hName := nameTo_eq (pre ++ lead) hStops hText hBound
  change _ = answer whole _ _ ((identifier stops text).bind fun p => y p.1 p.2)
  cases hFound : identifier stops text with
  | error left =>
    rw [hFound] at hName
    exact bind_of_error hName
  | ok found =>
    rw [hFound] at hName
    rw [bind_of_ok hName]
    exact hk found.1 found.2 hFound pre

/-- One step behind another. -/
theorem seq {k : Unit → Pass Unit} (hm : Rewrites whole [] m text (x text) v)
    (hk : ∀ a rest, x text = .ok (a, rest) → Rewrites whole (lead ++ v a) (k ()) rest (y a rest) w) :
    Rewrites whole lead (m >>= k) text ((x >>= y) text) w := by
  intro pre
  have hFirst := hm (pre ++ lead)
  rw [List.append_nil] at hFirst
  change _ = answer whole _ _ ((x text).bind fun p => y p.1 p.2)
  cases hFound : x text with
  | error left =>
    rw [hFound] at hFirst
    exact bind_of_error hFirst
  | ok found =>
    rw [hFound] at hFirst
    rw [bind_of_ok hFirst]
    show k () ⟨offset whole found.2, pre ++ lead ++ v found.1⟩ = _
    rw [List.append_assoc]
    exact hk found.1 found.2 hFound pre

theorem after (hm : Rewrites whole [] m text result v) :
    Rewrites whole lead m text result fun a => lead ++ v a := by
  intro pre
  have hFirst := hm (pre ++ lead)
  simpa only [List.append_nil, List.append_assoc] using hFirst

/-- The last step; the reader wraps what it gives. -/
theorem last {g : α → β} (hm : Rewrites whole [] m text (x text) v)
    (hWritten : ∀ a, w (g a) = lead ++ v a) : Rewrites whole lead m text ((g <$> x) text) w := by
  have hSeq := seq (k := fun _ => pure ()) (y := fun a => pure (g a)) (w := w) hm fun a rest _ =>
    done (hWritten a)
  rwa [bind_pure_unit, bind_pure_comp] at hSeq

end Rewrites

/-- A character is told by the next byte. -/
theorem head?_firstByte {k : Char} (hk : k.toNat < 0x80) :
    text.head?.map firstByte = some (byte k) ↔ ∃ rest, text = k :: rest := by
  cases text with
  | nil => exact iff_of_false nofun nofun
  | cons c rest =>
    rw [List.head?_cons, Option.map_some, Option.some.injEq, firstByte_eq hk]
    constructor
    · rintro rfl
      exact ⟨rest, rfl⟩
    · rintro ⟨rest, hText⟩
      exact (List.cons.inj hText).1

theorem primitiveLetters_ascii : ∀ c ∈ Signature.primitiveLetters, c.toNat < 0x80 := by decide

-- ---------------------------------------------------------------------------
-- Types
-- ---------------------------------------------------------------------------

variable {f : String → String}

/-- Types are rewritten as they are read, under this bound. -/
def RewritesTypes (whole : List Char) (f : String → String) (bound : Nat) : Prop :=
  ∀ {depth text}, text <:+ whole → 2 * byteCount text + 1 ≤ bound → 2 * text.length + 1 ≤ depth →
    Rewrites whole [] (rewriteType (bytesOf whole) f bound) text (Signature.scanType depth text)
      fun t => (t.rename f).toChars

/-- What follows the name of a class is rewritten as it is read, under this bound. -/
def RewritesParts (whole : List Char) (f : String → String) (bound : Nat) : Prop :=
  ∀ {depth text binary renamed}, text <:+ whole → 2 * byteCount text + 1 ≤ bound →
    2 * text.length + 1 ≤ depth →
      Rewrites whole [] (rewriteParts (bytesOf whole) f bound binary renamed) text
        (Signature.scanParts depth text)
        fun parts => partsToChars (renameParts f binary renamed parts) ++ [';']

/-- Type arguments are rewritten as they are read, under this bound. It is larger by one, for the
first call inside reads nothing before it. -/
def RewritesArguments (whole : List Char) (f : String → String) (bound : Nat) : Prop :=
  ∀ {depth text}, text <:+ whole → 2 * byteCount text + 2 ≤ bound → 2 * text.length + 2 ≤ depth →
    Rewrites whole [] (rewriteArguments (bytesOf whole) f bound) text
      (Signature.scanArguments depth text)
      fun arguments => argumentsToChars (renameArguments f arguments) ++ ['>']

variable {bound : Nat}

/-- A type reads its first character before it goes deeper. -/
theorem rewritesTypes_succ (hType : RewritesTypes whole f bound)
    (hParts : RewritesParts whole f bound) : RewritesTypes whole f (bound + 1) := by
  intro depth text hText hBound hDepth
  obtain ⟨depth, rfl⟩ := Nat.exists_eq_add_one.2 (Nat.zero_lt_of_lt hDepth)
  rw [rewriteType, Signature.scanType]
  dsimp only
  split
  · exact fun pre => bind_of_error (copy_nil hText)
  rename_i c rest
  have hRest : rest <:+ whole := (List.suffix_cons c rest).trans hText
  have hSize := byteCount_cons c rest
  have hFirst := List.length_pos_iff.2 (String.utf8EncodeChar_ne_nil (c := c))
  have hLength : (c :: rest).length = rest.length + 1 := rfl
  split
  · rename_i hLetter
    refine .copied hText (primitiveLetters_ascii c hLetter) ?_
    rw [if_pos (List.mem_map_of_mem hLetter)]
    exact .done (by rw [TypeSignature.rename, TypeSignature.toChars]; rfl)
  split
  · rename_i hArray
    subst hArray
    refine .copied hText (by decide) ?_
    rw [if_neg (by decide), if_pos rfl]
    refine .last (hType hRest (by omega) (by omega)) fun t => ?_
    rw [TypeSignature.rename, TypeSignature.toChars]
    rfl
  split
  · rename_i hVariable
    subst hVariable
    refine .copied hText (by decide) ?_
    rw [if_neg (by decide), if_neg (by decide), if_pos rfl]
    refine .named (by decide) hRest (by omega) fun name after hName => ?_
    obtain ⟨-, rfl, d, hStop, more, rfl⟩ := Signature.identifier_eq_ok.1 hName
    obtain rfl := List.mem_singleton.1 hStop
    refine .wrote (.copied ((List.suffix_append _ _).trans hRest) (by decide) (.done ?_))
    simp [TypeSignature.rename, TypeSignature.toChars]
  split
  · rename_i hClass
    subst hClass
    refine .copied hText (by decide) ?_
    rw [if_neg (by decide), if_neg (by decide), if_neg (by decide), if_pos rfl]
    refine .named (by decide) hRest (by omega) fun name after hName => ?_
    obtain ⟨-, rfl, -⟩ := Signature.identifier_eq_ok.1 hName
    rw [byteCount_append] at hSize
    rw [List.length_append] at hLength
    refine .wrote (.last (hParts ((List.suffix_append _ _).trans hRest) (by omega) (by omega))
      fun parts => ?_)
    simp [TypeSignature.rename, TypeSignature.toChars]
  · -- The pass has copied the byte already when it finds that no type starts with it.
    rename_i hLetter hArray hVariable hClass
    intro pre
    obtain ⟨written, hCopy, -⟩ := copy_eq (pre ++ []) hText
    obtain ⟨front, rfl⟩ := hText
    rw [bind_of_ok hCopy, if_neg (mt (firstByte_mem primitiveLetters_ascii).1 hLetter),
      if_neg (mt (firstByte_eq (by decide)).1 hArray),
      if_neg (mt (firstByte_eq (by decide)).1 hVariable),
      if_neg (mt (firstByte_eq (by decide)).1 hClass)]
    refine congrArg (fun offset => Except.error (Halt.malformed offset)) ?_
    show offset _ _ + 1 = _
    rw [offset, byteCount_append]
    omega

/-- So do the parts behind the name of a class. -/
theorem rewritesParts_succ (hParts : RewritesParts whole f bound)
    (hArguments : RewritesArguments whole f bound) : RewritesParts whole f (bound + 1) := by
  intro depth text binary renamed hText hBound hDepth
  obtain ⟨depth, rfl⟩ := Nat.exists_eq_add_one.2 (Nat.zero_lt_of_lt hDepth)
  rw [rewriteParts, Signature.scanParts]
  refine .peeked hText ?_
  dsimp only
  split
  · rename_i hOpen
    obtain ⟨rest, rfl⟩ := (head?_firstByte (by decide)).1 hOpen
    have hRest : rest <:+ whole := (List.suffix_cons _ rest).trans hText
    have hSize : byteCount ('<' :: rest) = 1 + byteCount rest := byteCount_cons _ rest
    rw [List.length_cons] at hDepth
    refine .copied hText (by decide) (.seq (hArguments hRest (by omega) (by omega))
      fun arguments after hFirst => ?_)
    obtain ⟨-, rfl⟩ := (Signature.scans_depth depth).2.2 hFirst
    rw [byteCount_append] at hSize
    rw [List.length_append] at hDepth
    refine .last (hParts ((List.suffix_append _ _).trans hRest) (by omega) (by omega))
      fun more => ?_
    simp [renameParts, partsToChars, ClassPart.toChars]
  split
  · rename_i hDot
    obtain ⟨rest, rfl⟩ := (head?_firstByte (by decide)).1 hDot
    have hRest : rest <:+ whole := (List.suffix_cons _ rest).trans hText
    have hSize : byteCount ('.' :: rest) = 1 + byteCount rest := byteCount_cons _ rest
    rw [List.length_cons] at hDepth
    refine .copied hText (by decide) (.named (by decide) hRest (by omega)
      fun name after hName => ?_)
    obtain ⟨-, rfl, -⟩ := Signature.identifier_eq_ok.1 hName
    rw [byteCount_append] at hSize
    rw [List.length_append] at hDepth
    refine .wrote (.last (hParts ((List.suffix_append _ _).trans hRest) (by omega) (by omega))
      fun more => ?_)
    simp [renameParts, partsToChars, ClassPart.toChars]
  split
  · rename_i hEnd
    obtain ⟨rest, rfl⟩ := (head?_firstByte (by decide)).1 hEnd
    exact .copied hText (by decide) (.done (by simp [renameParts, partsToChars]))
  · rename_i hNoArguments hNoNested hNoEnd
    split
    · exact absurd rfl hNoArguments
    · exact absurd rfl hNoNested
    · exact absurd rfl hNoEnd
    · exact .failed

/-- An argument may be a type from its first character on. -/
theorem rewritesArguments_succ (hType : RewritesTypes whole f bound)
    (hArguments : RewritesArguments whole f bound) : RewritesArguments whole f (bound + 1) := by
  intro depth text hText hBound hDepth
  obtain ⟨depth, rfl⟩ := Nat.exists_eq_add_one.2 (Nat.zero_lt_of_lt hDepth)
  rw [rewriteArguments, Signature.scanArguments]
  refine .peeked hText ?_
  dsimp only
  split
  · rename_i hEnd
    obtain ⟨rest, rfl⟩ := (head?_firstByte (by decide)).1 hEnd
    exact .copied hText (by decide) (.done (by simp [renameArguments, argumentsToChars]))
  split
  · rename_i hStar
    obtain ⟨rest, rfl⟩ := (head?_firstByte (by decide)).1 hStar
    have hRest : rest <:+ whole := (List.suffix_cons _ rest).trans hText
    have hSize : byteCount ('*' :: rest) = 1 + byteCount rest := byteCount_cons _ rest
    rw [List.length_cons] at hDepth
    refine .copied hText (by decide) (.last (hArguments hRest (by omega) (by omega))
      fun more => ?_)
    simp [renameArguments, TypeArgument.rename, argumentsToChars, TypeArgument.toChars]
  split
  · rename_i hSign
    obtain ⟨c, hSigned, rest, rfl⟩ : ∃ c, (c = '+' ∨ c = '-') ∧ ∃ rest, text = c :: rest :=
      hSign.elim (fun h => ⟨_, .inl rfl, (head?_firstByte (by decide)).1 h⟩)
        fun h => ⟨_, .inr rfl, (head?_firstByte (by decide)).1 h⟩
    have hRest : rest <:+ whole := (List.suffix_cons _ rest).trans hText
    have hSize := byteCount_cons c rest
    have hFirst := List.length_pos_iff.2 (String.utf8EncodeChar_ne_nil (c := c))
    rw [List.length_cons] at hDepth
    rcases hSigned with rfl | rfl
    all_goals
      refine .copied hText (by decide) (.seq (hType hRest (by omega) (by omega))
        fun t after hNext => ?_)
      obtain ⟨-, rfl⟩ := (Signature.scans_depth depth).1 hNext
      rw [byteCount_append] at hSize
      rw [List.length_append] at hDepth
      refine .last (hArguments ((List.suffix_append _ _).trans hRest) (by omega) (by omega))
        fun more => ?_
      simp [renameArguments, TypeArgument.rename, argumentsToChars, TypeArgument.toChars]
  split
  · rename_i hNoEnd hNoStar hNoSign hSome
    split
    · cases hSome
    · exact absurd rfl hNoEnd
    · exact absurd rfl hNoStar
    · rename_i c rest _ _
      have hPlain : ¬(c = '+' ∨ c = '-') := by
        rintro (rfl | rfl)
        · exact hNoSign (.inl rfl)
        · exact hNoSign (.inr rfl)
      rw [if_neg hPlain]
      refine .seq (hType hText (by omega) (by omega)) fun t after hNext => ?_
      -- A type is not empty, so less is left for the arguments behind it.
      obtain ⟨-, hEq⟩ := (Signature.scans_depth depth).1 hNext
      have hLength := (TypeArgument.exactly t).height_lt.2
      have hSize := length_le_byteCount t.toChars
      rw [TypeArgument.toChars] at hLength
      rw [hEq] at hText hBound hDepth
      rw [byteCount_append] at hBound
      rw [List.length_append] at hDepth
      refine .last (hArguments ((List.suffix_append _ _).trans hText) (by omega) (by omega))
        fun more => ?_
      simp [renameArguments, TypeArgument.rename, argumentsToChars, TypeArgument.toChars]
  · rename_i hNone
    cases text with
    | nil => exact .failed
    | cons c rest => exact absurd rfl hNone

/-- The parts of a signature are rewritten as they are read, under every bound that is large
enough. -/
theorem rewrites_depth (bound : Nat) :
    RewritesTypes whole f bound ∧ RewritesParts whole f bound ∧ RewritesArguments whole f bound := by
  induction bound with
  | zero => exact ⟨nofun, nofun, nofun⟩
  | succ bound ih =>
    obtain ⟨hType, hParts, hArguments⟩ := ih
    exact ⟨rewritesTypes_succ hType hParts, rewritesParts_succ hParts hArguments,
      rewritesArguments_succ hType hArguments⟩

-- ---------------------------------------------------------------------------
-- Rows of types
-- ---------------------------------------------------------------------------

theorem byteCount_le (hText : text <:+ whole) : byteCount text ≤ byteCount whole := by
  obtain ⟨front, rfl⟩ := hText
  rw [byteCount_append]
  exact Nat.le_add_left _ _

section Rounds

variable {x : Step α} {loop : Nat → Step (List α)} {v : α → List Char}
  {goesOn : Option UInt8 → Bool} {body ending : Pass Unit} {close : List Char}

/-- A loop of the pass beside one of the reader. -/
structure Rounds (whole : List Char) (x : Step α) (loop : Nat → Step (List α)) (v : α → List Char)
    (goesOn : Option UInt8 → Bool) (body : Pass Unit) : Prop where
  /-- A round of the pass rewrites what a round of the reader reads. -/
  rewrites : ∀ text, text <:+ whole → goesOn (text.head?.map firstByte) = true →
    Rewrites whole [] body text (x text) v
  /-- A round reads something. -/
  reads : ∀ text a rest, goesOn (text.head?.map firstByte) = true → x text = .ok (a, rest) →
    ∃ front ≠ [], text = front ++ rest
  /-- The reader goes on where the pass does. -/
  goes : ∀ text count, goesOn (text.head?.map firstByte) = true → loop (count + 1) text =
    (x >>= fun first => loop count >>= fun more => pure (first :: more)) text

/-- The loop ends, for every round takes a byte at least. -/
theorem rewrites_rounds (hSame : Rounds whole x loop v goesOn body)
    (hEnd : ∀ text count, text <:+ whole → goesOn (text.head?.map firstByte) = false →
      Rewrites whole [] ending text (loop (count + 1) text) fun list => list.flatMap v ++ close)
    {rounds count : Nat} (hText : text <:+ whole) (hRounds : byteCount text < rounds)
    (hCount : text.length < count) :
    Rewrites whole [] (repeatWhile (bytesOf whole) goesOn body rounds >>= fun _ => ending) text
      (loop count text) fun list => list.flatMap v ++ close := by
  induction rounds generalizing text count with
  | zero => cases hRounds
  | succ rounds ih =>
    obtain ⟨count, rfl⟩ := Nat.exists_eq_add_one.2 (Nat.zero_lt_of_lt hCount)
    rw [repeatWhile, bind_assoc]
    refine .peeked hText ?_
    cases hGoesOn : goesOn (text.head?.map firstByte) with
    | false => exact hEnd text count hText hGoesOn
    | true =>
      rw [if_pos rfl, hSame.goes text count hGoesOn, bind_assoc]
      refine .seq (hSame.rewrites text hText hGoesOn) fun a rest hFirst => ?_
      obtain ⟨front, hSome, rfl⟩ := hSame.reads text a rest hGoesOn hFirst
      have hFront := List.length_pos_iff.2 hSome
      have hSize := length_le_byteCount front
      rw [byteCount_append] at hRounds
      rw [List.length_append] at hCount
      refine .last (ih ((List.suffix_append _ _).trans hText) (by omega) (by omega)) fun more => ?_
      rw [List.flatMap_cons, List.nil_append, List.append_assoc]

/-- A row without an end of its own. -/
theorem rewrites_open (hSame : Rounds whole x loop v goesOn body)
    (hEnd : ∀ text count, goesOn (text.head?.map firstByte) = false →
      loop (count + 1) text = .ok ([], text))
    {rounds count : Nat} (hText : text <:+ whole) (hRounds : byteCount text < rounds)
    (hCount : text.length < count) :
    Rewrites whole [] (repeatWhile (bytesOf whole) goesOn body rounds) text (loop count text)
      (List.flatMap v) := by
  have hAll : Rewrites whole [] (repeatWhile (bytesOf whole) goesOn body rounds >>= fun _ => pure ())
      text (loop count text) fun list => list.flatMap v ++ [] :=
    rewrites_rounds hSame (fun text count _ hOff => hEnd text count hOff ▸ .done rfl) hText hRounds
      hCount
  rw [bind_pure_unit] at hAll
  simpa only [List.append_nil] using hAll

theorem head?_ne_of_goesOn {last : Char} (hLast : last.toNat < 0x80)
    (hOn : (text.head?.map firstByte != some (byte last)) = true) : text.head? ≠ some last := by
  intro hHead
  obtain ⟨rest, rfl⟩ := List.head?_eq_some_iff.1 hHead
  rw [(head?_firstByte hLast).2 ⟨rest, rfl⟩, bne_self_eq_false] at hOn
  cases hOn

/-- A row up to and with a closing character. -/
theorem rewrites_closed {last : Char} (hLast : last.toNat < 0x80)
    (hSame : Rounds whole x loop v (· != some (byte last)) body)
    (hEnd : ∀ rest count, loop (count + 1) (last :: rest) = .ok ([], rest))
    {rounds count : Nat} (hText : text <:+ whole) (hRounds : byteCount text < rounds)
    (hCount : text.length < count) :
    Rewrites whole [] (rewriteTo (bytesOf whole) last body rounds) text (loop count text)
      fun list => list.flatMap v ++ [last] := by
  refine rewrites_rounds hSame (fun text count hText hOff => ?_) hText hRounds hCount
  obtain ⟨rest, rfl⟩ := (head?_firstByte hLast).1 (bne_eq_false_iff_eq.1 hOff)
  rw [hEnd rest count]
  exact .copied hText hLast (.done rfl)

end Rounds

section Rows

variable {count : Nat} (hBound : 2 * byteCount whole + 2 ≤ bound)

include hBound

theorem rewrites_type (hText : text <:+ whole) :
    Rewrites whole [] (rewriteType (bytesOf whole) f bound) text (Signature.type text)
      fun t => (t.rename f).toChars := by
  have hSize := byteCount_le hText
  exact (rewrites_depth bound).1 hText (by omega) (by omega)

omit hBound in
theorem exists_front_of_type {t : TypeSignature} (hType : Signature.type text = .ok (t, rest)) :
    ∃ front ≠ [], text = front ++ rest := by
  obtain ⟨hWell, hText⟩ := Signature.type_eq_ok.1 hType
  obtain ⟨c, chars, hChars, -⟩ := hWell.exists_toChars
  exact ⟨t.toChars, hChars ▸ List.cons_ne_nil c chars, hText⟩

theorem rewrites_marked {mark : Char} (hMark : mark.toNat < 0x80) (hText : text <:+ whole)
    (hCount : text.length < count) :
    Rewrites whole [] (rewriteMarked (bytesOf whole) f mark bound) text
      (Signature.marked mark count text)
      fun list => list.flatMap fun t => mark :: (t.rename f).toChars := by
  have hSize := byteCount_le hText
  have hGoesOn : ∀ {text : List Char}, (text.head?.map firstByte == some (byte mark)) = true ↔
      ∃ rest, text = mark :: rest := fun {text} => by rw [beq_iff_eq, head?_firstByte hMark]
  have hSame : Rounds whole (fun text => Signature.type text.tail) (Signature.marked mark)
      (fun t => mark :: (t.rename f).toChars) (· == some (byte mark))
      (copy (bytesOf whole) >>= fun _ => rewriteType (bytesOf whole) f bound) := by
    refine ⟨fun text hText hOn => ?_, fun text t rest hOn hType => ?_, fun text count hOn => ?_⟩
    · obtain ⟨rest, rfl⟩ := hGoesOn.1 hOn
      have hRest : rest <:+ whole := (List.suffix_cons _ rest).trans hText
      exact .copied hText hMark (.after (rewrites_type hBound hRest))
    · obtain ⟨tail, rfl⟩ := hGoesOn.1 hOn
      obtain ⟨front, -, hTail⟩ := exists_front_of_type hType
      exact ⟨mark :: front, List.cons_ne_nil _ _, congrArg (mark :: ·) hTail⟩
    · obtain ⟨rest, rfl⟩ := hGoesOn.1 hOn
      rw [Signature.marked]
      exact if_pos rfl
  refine rewrites_open hSame (fun text count hOff => ?_) hText (by omega) hCount
  have hNot : ∀ rest, text ≠ mark :: rest := fun rest hEq =>
    Bool.false_ne_true (hOff.symm.trans (hGoesOn.2 ⟨rest, hEq⟩))
  rw [Signature.marked]
  cases text with
  | nil => rfl
  | cons c rest => exact if_neg fun hEq : c = mark => hNot rest (hEq ▸ rfl)

theorem rewrites_parenthesized (hText : text <:+ whole) (hCount : text.length < count) :
    Rewrites whole [] (rewriteTo (bytesOf whole) ')' (rewriteType (bytesOf whole) f bound) bound)
      text (Signature.parenthesized count text)
      fun list => list.flatMap (fun t => (t.rename f).toChars) ++ [')'] := by
  have hSize := byteCount_le hText
  have hSame : Rounds whole Signature.type Signature.parenthesized (fun t => (t.rename f).toChars)
      (· != some (byte ')')) (rewriteType (bytesOf whole) f bound) := by
    refine ⟨fun text hText _ => rewrites_type hBound hText, fun _ _ _ _ => exists_front_of_type,
      fun text count hOn => ?_⟩
    rw [Signature.parenthesized]
    dsimp only
    split
    · exact absurd rfl (head?_ne_of_goesOn (by decide) hOn)
    · rfl
  exact rewrites_closed (by decide) hSame (fun _ _ => rfl) hText (by omega) hCount

theorem rewrites_typesToEnd (hText : text <:+ whole) (hCount : text.length < count) :
    Rewrites whole [] (repeatWhile (bytesOf whole) Option.isSome (rewriteType (bytesOf whole) f bound)
      bound) text (Signature.typesToEnd count text)
      fun list => list.flatMap fun t => (t.rename f).toChars := by
  have hSize := byteCount_le hText
  have hSame : Rounds whole Signature.type Signature.typesToEnd (fun t => (t.rename f).toChars)
      Option.isSome (rewriteType (bytesOf whole) f bound) := by
    refine ⟨fun text hText _ => rewrites_type hBound hText, fun _ _ _ _ => exists_front_of_type,
      fun text count hOn => ?_⟩
    cases text with
    | nil => cases hOn
    | cons c rest => rfl
  refine rewrites_open hSame (fun text count hOff => ?_) hText (by omega) hCount
  cases text with
  | nil => rfl
  | cons c rest => cases hOff

-- ---------------------------------------------------------------------------
-- Type parameters
-- ---------------------------------------------------------------------------

theorem rewrites_classBound (hText : text <:+ whole) :
    Rewrites whole [] (rewriteClassBound (bytesOf whole) f bound) text (Signature.classBound text)
      fun t => ((t.map (·.rename f)).map TypeSignature.toChars).getD [] := by
  rw [rewriteClassBound]
  refine .peeked hText ?_
  split
  · rename_i hEnd
    rcases hEnd with hEnd | hEnd
    all_goals
      obtain ⟨rest, rfl⟩ := (head?_firstByte (by decide)).1 hEnd
      exact .done rfl
  · rename_i hElse
    unfold Signature.classBound
    split
    · exact absurd (.inl rfl) hElse
    · exact absurd (.inr rfl) hElse
    · exact .last (rewrites_type hBound hText) fun t => rfl

theorem rewrites_typeParameter (hText : text <:+ whole) :
    Rewrites whole [] (rewriteParameter (bytesOf whole) f bound) text
      (Signature.typeParameter text.length text) fun p => (p.rename f).toChars := by
  have hSize := byteCount_le hText
  rw [rewriteParameter, Signature.typeParameter]
  refine .named (by decide) hText (by omega) fun name after hName => ?_
  obtain ⟨-, hEq, d, hStop, more, rfl⟩ := Signature.identifier_eq_ok.1 hName
  obtain rfl := List.mem_singleton.1 hStop
  have hAfter : ':' :: more <:+ whole := (hEq ▸ List.suffix_append name _).trans hText
  have hMore : more <:+ whole := (List.suffix_cons _ more).trans hAfter
  refine .wrote (.copied hAfter (by decide) ?_)
  show Rewrites _ _ _ _ ((Signature.classBound >>= fun first =>
    Signature.marked ':' text.length >>= fun bounds =>
      pure (⟨String.ofList name, first, bounds⟩ : TypeParameter)) more) _
  refine .seq (rewrites_classBound hBound hMore) fun t rest hRest => ?_
  obtain ⟨-, rfl, -⟩ := Signature.classBound_eq_ok.1 hRest
  refine .last (rewrites_marked hBound (by decide) ((List.suffix_append _ _).trans hMore) ?_)
    fun bounds => ?_
  · rw [hEq, List.length_append, List.length_cons, List.length_append]
    omega
  · simp [TypeParameter.rename, TypeParameter.toChars, List.flatMap_map]

theorem rewrites_typeParameters (hText : text <:+ whole) (hCount : text.length < count) :
    Rewrites whole [] (rewriteTo (bytesOf whole) '>' (rewriteParameter (bytesOf whole) f bound) bound)
      text (Signature.typeParameters count text)
      fun list => list.flatMap (fun p => (p.rename f).toChars) ++ ['>'] := by
  have hSize := byteCount_le hText
  have hSame : Rounds whole (fun text => Signature.typeParameter text.length text)
      Signature.typeParameters (fun p => (p.rename f).toChars) (· != some (byte '>'))
      (rewriteParameter (bytesOf whole) f bound) := by
    refine ⟨fun text hText _ => rewrites_typeParameter hBound hText, fun text p rest hOn hRead => ?_,
      fun text count hOn => ?_⟩
    · obtain ⟨-, hEq, -⟩ :=
        (Signature.typeParameter_eq_ok (head?_ne_of_goesOn (by decide) hOn)).1 hRead
      exact ⟨p.toChars, List.append_ne_nil_of_right_ne_nil _ (List.cons_ne_nil _ _), hEq⟩
    · rw [Signature.typeParameters]
      dsimp only
      split
      · exact absurd rfl (head?_ne_of_goesOn (by decide) hOn)
      · rfl
  exact rewrites_closed (by decide) hSame (fun _ _ => rfl) hText (by omega) hCount

-- ---------------------------------------------------------------------------
-- Signatures
-- ---------------------------------------------------------------------------

theorem rewrites_scanBody (hText : text <:+ whole) :
    Rewrites whole [] (rewriteBody (bytesOf whole) f bound) text (Signature.scanBody text)
      fun b => (b.rename f).toChars := by
  rw [rewriteBody]
  refine .peeked hText ?_
  split
  · rename_i hOpen
    obtain ⟨rest, rfl⟩ := (head?_firstByte (by decide)).1 hOpen
    have hRest : rest <:+ whole := (List.suffix_cons _ rest).trans hText
    refine .copied hText (by decide) ?_
    show Rewrites _ _ _ _ ((Signature.parenthesized (rest.length + 1) >>= fun parameters =>
      Signature.type >>= fun returns => Signature.marked '^' rest.length >>= fun throws =>
        pure (SignatureBody.method parameters returns throws)) rest) _
    refine .seq (rewrites_parenthesized hBound hRest (Nat.lt_succ_self _))
      fun parameters afterParameters hParameters => ?_
    obtain ⟨-, hEq⟩ := Signature.scans_parenthesized _ hParameters
    have hReturns : afterParameters <:+ whole := (hEq ▸ List.suffix_append _ _).trans hRest
    refine .seq (rewrites_type hBound hReturns) fun returns afterReturns hFound => ?_
    obtain ⟨front, -, rfl⟩ := exists_front_of_type hFound
    have hThrows : afterReturns <:+ whole := (List.suffix_append _ _).trans hReturns
    have hLength := congrArg List.length hEq
    simp only [List.length_append, List.length_singleton] at hLength
    refine .last (rewrites_marked hBound (by decide) hThrows (by omega)) fun throws => ?_
    simp [SignatureBody.rename, SignatureBody.toChars, List.flatMap_map]
  · rename_i hPlain
    unfold Signature.scanBody
    split
    · exact absurd rfl hPlain
    · refine .last (rewrites_typesToEnd hBound hText (Nat.lt_succ_self _)) fun list => ?_
      simp [SignatureBody.rename, SignatureBody.toChars, List.flatMap_map]

theorem rewrites_scan : Rewrites whole [] (rewriteSignature (bytesOf whole) f bound) whole
    (Signature.scan whole) fun s => (s.rename f).toChars := by
  rw [rewriteSignature, rewriteParameters, bind_assoc]
  refine .peeked List.suffix_rfl ?_
  split
  · rename_i hOpen
    obtain ⟨rest, rfl⟩ := (head?_firstByte (by decide)).1 hOpen
    have hRest : rest <:+ '<' :: rest := List.suffix_cons _ rest
    rw [bind_assoc]
    refine .copied List.suffix_rfl (by decide) ?_
    show Rewrites _ _ _ _ ((Signature.typeParameters (rest.length + 1) >>= fun parameters =>
      Signature.scanBody >>= fun body => pure (Signature.mk (some parameters) body)) rest) _
    refine .seq (rewrites_typeParameters hBound hRest (Nat.lt_succ_self _))
      fun parameters after hParameters => ?_
    obtain ⟨-, hEq⟩ := Signature.scans_typeParameters _ hParameters
    refine .last (rewrites_scanBody hBound ((hEq ▸ List.suffix_append _ _).trans hRest))
      fun body => ?_
    simp [Signature.rename, Signature.toChars, List.flatMap_map]
  · rename_i hPlain
    unfold Signature.scan
    split
    · exact absurd rfl hPlain
    · exact .last (rewrites_scanBody hBound List.suffix_rfl) fun body => rfl

end Rows

/-- **A pass over a text is the reading, the renaming and the writing of its signature.** It halts at
the offset where the reader does; no piece of a text is torn, and no loop is endless. -/
theorem run_eq {text : String} (hBound : 2 * (Utf8.encode text).length + 2 ≤ bound) :
    run bound f text = match Signature.parse text with
      | .ok s => .ok (toString (s.rename f))
      | .error offset => .error (.malformed offset) := by
  obtain ⟨whole, hWhole⟩ : ∃ whole, text.toList = whole := ⟨_, rfl⟩
  have hBytes : Utf8.encode text = bytesOf whole := congrArg bytesOf hWhole
  rw [hBytes, ← byteCount_eq] at hBound
  have hScan : rewriteSignature (bytesOf whole) f bound ⟨0, []⟩ =
      answer whole (fun s => (s.rename f).toChars) (fun _ => ()) (Signature.scan whole) := by
    rw [← Nat.sub_self (byteCount whole)]
    exact rewrites_scan hBound []
  rw [run, hBytes, rewriteAll, Signature.parse, hWhole]
  cases hResult : Signature.scan whole with
  | error left =>
    rw [hResult] at hScan
    rw [bind_of_error hScan]
    rfl
  | ok found =>
    obtain ⟨s, rest⟩ := found
    rw [hResult] at hScan
    rw [bind_of_ok hScan]
    obtain ⟨-, hEq⟩ := Signature.scans_scan hResult
    rw [bind_of_ok (a := (⟨offset whole rest, (s.rename f).toChars⟩ : Place)) rfl]
    dsimp only
    rw [← byteCount_eq]
    cases rest with
    | nil =>
      rw [if_pos (show offset whole [] = byteCount whole from Nat.sub_zero _)]
      rfl
    | cons c more =>
      have hFirst := List.length_pos_iff.2 (String.utf8EncodeChar_ne_nil (c := c))
      have hSize := congrArg byteCount hEq
      rw [byteCount_append, byteCount_cons] at hSize
      have hInside : offset whole (c :: more) ≠ byteCount whole := by
        rw [offset, byteCount_cons]
        omega
      rw [if_neg hInside]
      rfl

/-- **What a renaming makes of a text.** A text is a signature or not, and the pass says so. If it is
one, the renaming that keeps every name gives the text again, and one that its classes can follow
gives a text that is read as the same tree under the new names. -/
theorem renaming_spec {bound : Nat} {text : String} (f : String → String)
    (hBound : 2 * (Utf8.encode text).length + 2 ≤ bound) :
    (∃ s, Signature.parse text = .ok s ∧ run bound id text = .ok text ∧
      run bound f text = .ok (toString (s.rename f)) ∧
      ((∀ c ∈ s.classes, c.Follows f) → Signature.parse (toString (s.rename f)) = .ok (s.rename f) ∧
        s.RenamedTo f (s.rename f))) ∨
    ∃ offset, Signature.parse text = .error offset ∧
      run bound f text = .error (.malformed offset) := by
  have hRun : ∀ g, run bound g text = match Signature.parse text with
      | .ok s => .ok (toString (s.rename g))
      | .error offset => .error (.malformed offset) := fun g => run_eq hBound
  cases hParse : Signature.parse text with
  | error offset => exact .inr ⟨offset, rfl, by rw [hRun, hParse]⟩
  | ok s =>
    obtain ⟨hWell, hText⟩ := Signature.parse_eq_ok.1 hParse
    refine .inl ⟨s, rfl, ?_, by rw [hRun, hParse], fun hFollows => ?_⟩
    · rw [hRun, hParse]
      dsimp only
      rw [s.rename_id, hText]
    · obtain ⟨hNew, hRenamed⟩ := s.renamed_spec hWell hFollows
      exact ⟨Signature.parse_eq_ok.2 ⟨hNew, rfl⟩, hRenamed⟩

/-- New names of two classes and of a class that is nested in one of them. -/
def shortNames (name : String) : String :=
  if name = "a" then "World" else if name = "b" then "Entity"
  else if name = "b$c" then "Entity$Data" else name

/-- A class that is nested in a class with a type argument. -/
def nestedIn (outer argument simple : String) : Signature :=
  ⟨none, .types [.classType outer [.arguments [.exactly (.classType argument [])], .nested simple]]⟩

/-- The type argument between a class and the one that is nested in it is renamed on its own. -/
theorem renaming_shortNames : run 22 id "Lb<La;>.c;" = .ok "Lb<La;>.c;" ∧
    run 22 shortNames "Lb<La;>.c;" = .ok "LEntity<LWorld;>.Data;" ∧
    Signature.parse "LEntity<LWorld;>.Data;" = .ok (nestedIn "Entity" "World" "Data") ∧
    (nestedIn "b" "a" "c").RenamedTo shortNames (nestedIn "Entity" "World" "Data") := by
  have hBound : 2 * (Utf8.encode "Lb<La;>.c;").length + 2 ≤ 22 := by decide
  have hNames : ∀ name ∈ ["a", "b", "c", "Entity", "World", "Entity$Data"], IsClassName name := by
    unfold IsClassName
    decide
  have hWell : (nestedIn "b" "a" "c").WellFormed := by
    refine ⟨nofun, fun t ht => ?_⟩
    obtain rfl := List.mem_singleton.1 ht
    exact ⟨hNames _ (by decide), ⟨⟨hNames _ (by decide), trivial⟩, trivial⟩, hNames _ (by decide),
      trivial⟩
  have hParse : Signature.parse "Lb<La;>.c;" = .ok (nestedIn "b" "a" "c") :=
    Signature.parse_eq_ok.2 ⟨hWell, rfl⟩
  have hNested : shortNames ("b" ++ "$" ++ "c") = "Entity$Data" := by decide
  have hFollows : ∀ c ∈ (nestedIn "b" "a" "c").classes, c.Follows shortNames := by
    have hClasses : (nestedIn "b" "a" "c").classes =
        [⟨none, "b"⟩, ⟨none, "a"⟩, ⟨some "b", "b" ++ "$" ++ "c"⟩] := rfl
    rw [hClasses]
    simp only [List.forall_mem_cons]
    refine ⟨⟨hNames "Entity" (by decide), nofun⟩, ⟨hNames "World" (by decide), nofun⟩,
      ⟨hNested ▸ hNames "Entity$Data" (by decide), ?_⟩, nofun⟩
    rintro _ ⟨⟩
    exact ⟨"Data", hNested.trans (by decide)⟩
  have hNew : (nestedIn "b" "a" "c").rename shortNames = nestedIn "Entity" "World" "Data" := rfl
  have hText : toString (nestedIn "Entity" "World" "Data") = "LEntity<LWorld;>.Data;" := rfl
  obtain ⟨_, hSame, hId, hRun, hSpec⟩ | ⟨_, hFault, -⟩ := renaming_spec shortNames hBound
  · obtain rfl := Except.ok.inj (hParse.symm.trans hSame)
    obtain ⟨hRead, hRenamed⟩ := hSpec hFollows
    rw [hNew, hText] at hRun hRead
    rw [hNew] at hRenamed
    exact ⟨hId, hRun, hRead, hRenamed⟩
  · exact nomatch hParse.symm.trans hFault

end Jarsmith.SignaturePass

import InCircuit.IntelHex.Reader
import InCircuit.IntelHex.Writer

set_option autoImplicit false

/-!
# Records read back

A record whose data are not too long for the length byte is read back from the line it is written
as, and the lines of a file are read back from the text.
-/
namespace InCircuit

namespace Text

theorem linesAfter_append (read line rest : List Char) (h : '\n' ∉ line) :
    linesAfter read (line ++ '\n' :: rest) =
      closeLine (line.reverse ++ read) :: linesAfter [] rest := by
  induction line generalizing read with
  | nil => rfl
  | cons c line ih =>
    have hc : c ≠ '\n' := fun e => h (by rw [e]; exact List.mem_cons_self)
    have hline : '\n' ∉ line := fun hm => h (List.mem_cons_of_mem c hm)
    rw [List.cons_append, linesAfter, if_neg hc, ih (c :: read) hline, List.reverse_cons,
      List.append_assoc]
    rfl

theorem closeLine_reverse (line : List Char) (h : '\r' ∉ line) : closeLine line.reverse = line := by
  unfold closeLine
  split
  · rename_i rest hr
    have : '\r' ∈ line.reverse := by rw [hr]; exact List.mem_cons_self
    exact absurd (List.mem_reverse.mp this) h
  · exact List.reverse_reverse line

theorem lines_flatMap (ls : List (List Char)) (feed : ∀ l ∈ ls, '\n' ∉ l)
    (carriage : ∀ l ∈ ls, '\r' ∉ l) : lines (ls.flatMap (· ++ ['\n'])) = ls := by
  induction ls with
  | nil => rfl
  | cons l ls ih =>
    have rest := ih (fun l hl => feed l (List.mem_cons_of_mem _ hl))
      fun l hl => carriage l (List.mem_cons_of_mem _ hl)
    rw [List.flatMap_cons, List.append_assoc]
    change linesAfter [] (l ++ '\n' :: ls.flatMap (· ++ ['\n'])) = _
    rw [linesAfter_append [] l _ (feed l List.mem_cons_self), List.append_nil,
      closeLine_reverse l (carriage l List.mem_cons_self)]
    exact congrArg _ rest

end Text

namespace IntelHex

/-! ## Bytes -/

theorem byteDigits_eq (b : UInt8) :
    byteDigits b = ((Nat.toDigits 16 b.toNat).map Char.toUpper).leftpad 2 '0' := by
  rw [byteDigits, Text.hex, Text.digits, String.toList_ofList]

/-- Each byte is written as two digits that denote it, and no line end is a digit. -/
theorem byteDigits_pair (b : UInt8) : ∃ x y high low, byteDigits b = [x, y] ∧
    Text.hexValue? x = some high ∧ Text.hexValue? y = some low ∧
      UInt8.ofNat (16 * high + low) = b := by
  have all : ∀ n < 256, (((Nat.toDigits 16 n).map Char.toUpper).leftpad 2 '0').map
      Text.hexValue? = [some (n / 16), some (n % 16)] := by decide +kernel
  have digits := all b.toNat b.toNat_lt
  rw [← byteDigits_eq] at digits
  obtain ⟨x, rest, h, hx, hrest⟩ := List.map_eq_cons_iff.mp digits
  obtain ⟨y, rest, rfl, hy, hnil⟩ := List.map_eq_cons_iff.mp hrest
  obtain rfl := List.map_eq_nil_iff.mp hnil
  refine ⟨x, y, _, _, h, hx, hy, ?_⟩
  rw [Nat.div_add_mod, UInt8.ofNat_toNat]

theorem length_digits (bytes : List UInt8) :
    (bytes.flatMap byteDigits).length = 2 * bytes.length := by
  induction bytes with
  | nil => rfl
  | cons b bytes ih =>
    obtain ⟨x, y, _, _, h, _⟩ := byteDigits_pair b
    rw [List.flatMap_cons, List.length_append, ih, h, List.length_cons]
    simp only [List.length_cons, List.length_nil]
    omega

theorem ofByteDigits?_digits (bytes : List UInt8) :
    ofByteDigits? (bytes.flatMap byteDigits) = some bytes := by
  induction bytes with
  | nil => rfl
  | cons b bytes ih =>
    obtain ⟨x, y, high, low, h, hx, hy, hb⟩ := byteDigits_pair b
    rw [List.flatMap_cons, h]
    simp only [List.cons_append, List.nil_append, ofByteDigits?, hx, hy, ih, hb,
      Option.bind_eq_bind, Option.bind_some, Option.pure_def]

theorem hexValue?_of_mem_digits {bytes : List UInt8} {c : Char}
    (h : c ∈ bytes.flatMap byteDigits) : ∃ v, Text.hexValue? c = some v := by
  obtain ⟨b, _, hc⟩ := List.mem_flatMap.mp h
  obtain ⟨x, y, high, low, hb, hx, hy, _⟩ := byteDigits_pair b
  rw [hb] at hc
  obtain rfl | hc := List.mem_cons.mp hc
  · exact ⟨high, hx⟩
  · obtain rfl := List.mem_singleton.mp hc
    exact ⟨low, hy⟩

/-! ## Words and sums -/

theorem joinWord_splitWord (w : UInt16) :
    joinWord (w.toNat / 256).toUInt8 w.toNat.toUInt8 = w := by
  have hw := w.toNat_lt
  apply UInt16.toNat_inj.mp
  simp only [joinWord, Nat.toUInt8, UInt8.toNat_ofNat', UInt16.toNat_ofNat']
  omega

theorem total_append (xs ys : List UInt8) : total (xs ++ ys) = total xs + total ys := by
  have from_sum : ∀ (ys : List UInt8) (sum : UInt8), ys.foldl (· + ·) sum = sum + total ys := by
    intro ys
    induction ys with
    | nil => intro sum; exact (UInt8.add_zero sum).symm
    | cons y ys ih =>
      intro sum
      rw [total, List.foldl_cons, List.foldl_cons, ih, ih (0 + y), UInt8.zero_add, UInt8.add_assoc]
  rw [total, List.foldl_append, from_sum]
  rfl

namespace Record

/-! ## Records -/

theorem total_bytes (r : Record) : total r.bytes = 0 := by
  rw [bytes, total_append]
  change total r.body + (0 + (0 - total r.body)) = 0
  rw [UInt8.zero_add, UInt8.zero_sub, UInt8.add_right_neg]

theorem ofFields?_payload (r : Record) : ofFields? r.kind r.offset r.payload = some r := by
  cases r with
  | data offset bytes => rfl
  | endOfFile => rfl
  | segment base =>
    change some (segment (joinWord _ _)) = _
    rw [joinWord_splitWord]
  | startSegment s p =>
    change some (startSegment (joinWord _ _) (joinWord _ _)) = _
    rw [joinWord_splitWord, joinWord_splitWord]
  | linear upper =>
    change some (linear (joinWord _ _)) = _
    rw [joinWord_splitWord]
  | startLinear h l =>
    change some (startLinear (joinWord _ _) (joinWord _ _)) = _
    rw [joinWord_splitWord, joinWord_splitWord]

theorem ofBytes?_bytes (r : Record) (h : r.payload.length < 256) : ofBytes? r.bytes = some r := by
  have sum := total_bytes r
  have length : (UInt8.ofNat r.payload.length).toNat = r.payload.length := by
    rw [UInt8.toNat_ofNat']
    omega
  simp only [bytes, body, splitWord, List.cons_append, List.nil_append] at sum ⊢
  simp only [ofBytes?, List.dropLast_concat, joinWord_splitWord, length]
  rw [if_pos ⟨sum, by simp, trivial⟩, ofFields?_payload]

theorem length_bytes (r : Record) : r.bytes.length = r.payload.length + 5 := by
  simp [bytes, body, splitWord]

theorem decode?_encode (r : Record) (h : r.payload.length < 256) : decode? r.encode = some r := by
  have digits := length_digits r.bytes
  rw [length_bytes] at digits
  have bounds : 10 ≤ (r.bytes.flatMap byteDigits).length ∧
      (r.bytes.flatMap byteDigits).length ≤ 522 := by omega
  rw [encode, decode?, if_pos bounds, ofByteDigits?_digits]
  exact ofBytes?_bytes r h

theorem ne_of_mem_encode {r : Record} {c d : Char} (h : c ∈ r.encode) (colon : d ≠ ':')
    (digit : Text.hexValue? d = none) : c ≠ d := by
  rintro rfl
  obtain hc | hc := List.mem_cons.mp h
  · exact colon hc
  · obtain ⟨v, hv⟩ := hexValue?_of_mem_digits hc
    rw [digit] at hv
    cases hv

theorem lines_encode (records : List Record) :
    (Text.lines (records.flatMap fun r => r.encode ++ ['\n'])).filter (! ·.isEmpty) =
      records.map encode := by
  have joined : records.flatMap (fun r => r.encode ++ ['\n']) =
      (records.map encode).flatMap (· ++ ['\n']) := by
    rw [List.flatMap_map]
  have free (d : Char) (colon : d ≠ ':') (digit : Text.hexValue? d = none) :
      ∀ l ∈ records.map encode, d ∉ l := by
    intro l hl hd
    obtain ⟨r, _, rfl⟩ := List.mem_map.mp hl
    exact ne_of_mem_encode hd colon digit rfl
  rw [joined, Text.lines_flatMap _ (free '\n' (by decide) (by decide))
    (free '\r' (by decide) (by decide)), List.filter_eq_self]
  intro l hl
  obtain ⟨r, _, rfl⟩ := List.mem_map.mp hl
  rfl

end Record

end IntelHex

end InCircuit

import TinyScript.Text.Source

/-!
# Where lines may be cut

Lines can be split off at the front of a list, and lists of whole lines can be put one behind the
other (`splitLines_append`, `exists_of_splitLines`). Encoding a text cuts into no line: the byte of
a line feed stands for nothing but a line feed, so the lines of the bytes are those of the text
(`Source.ofBytes_toUTF8`).
-/

namespace TinyScript

namespace Text

variable {α β : Type} {isEnd : α → Bool}

/-- The list does not stop within a line. -/
def WholeLines (isEnd : α → Bool) (as : List α) : Prop :=
  ∀ a ∈ as.getLast?, isEnd a = true

theorem wholeLines_nil : WholeLines isEnd [] := by
  simp [WholeLines]

theorem WholeLines.cons {as : List α} (h : WholeLines isEnd as) {a : α}
    (ha : as = [] → isEnd a = true) : WholeLines isEnd (a :: as) := by
  cases as with
  | nil => simpa [WholeLines] using ha rfl
  | cons b bs => simpa [WholeLines] using h

theorem WholeLines.of_cons {a : α} {as : List α} (h : WholeLines isEnd (a :: as)) :
    WholeLines isEnd as ∧ (as = [] → isEnd a = true) := by
  cases as with
  | nil => exact ⟨wholeLines_nil, fun _ => by simpa [WholeLines] using h⟩
  | cons b bs => exact ⟨by simpa [WholeLines] using h, by simp⟩

theorem WholeLines.append {as bs : List α} (h : WholeLines isEnd as) (hbs : WholeLines isEnd bs) :
    WholeLines isEnd (as ++ bs) := by
  cases bs with
  | nil => simpa using h
  | cons => simpa [WholeLines] using hbs

theorem WholeLines.of_append {as bs : List α} (h : WholeLines isEnd (as ++ bs)) :
    WholeLines isEnd bs := by
  cases bs with
  | nil => exact wholeLines_nil
  | cons => simpa [WholeLines] using h

theorem consLine_ne_nil (a : α) (lines : List (List α)) : consLine isEnd a lines ≠ [] := by
  unfold consLine
  split
  · simp
  · split <;> simp

@[simp] theorem splitLines_eq_nil {as : List α} : splitLines isEnd as = [] ↔ as = [] := by
  cases as with
  | nil => simp
  | cons a as => simp [consLine_ne_nil]

/-- An element in front of lines joins the first of them, unless it ends a line. -/
theorem consLine_append {a : α} {lines : List (List α)} (h : lines = [] → isEnd a = true)
    (others : List (List α)) :
    consLine isEnd a (lines ++ others) = consLine isEnd a lines ++ others := by
  unfold consLine
  split
  · rfl
  · next ha =>
      cases lines with
      | nil => exact absurd (h rfl) ha
      | cons line lines => rfl

theorem splitLines_append {as : List α} (h : WholeLines isEnd as) (bs : List α) :
    splitLines isEnd (as ++ bs) = splitLines isEnd as ++ splitLines isEnd bs := by
  induction as with
  | nil => rfl
  | cons a as ih =>
      rw [List.cons_append, splitLines_cons, splitLines_cons, ih h.of_cons.1]
      exact consLine_append (fun hnil => h.of_cons.2 (splitLines_eq_nil.1 hnil)) _

/-- Where the lines are cut in two, so is the list that they are the lines of. -/
theorem exists_of_splitLines {as : List α} {first last : List (List α)}
    (h : splitLines isEnd as = first ++ last) :
    ∃ head tail, as = head ++ tail ∧ splitLines isEnd head = first ∧
      splitLines isEnd tail = last ∧ (tail = [] ∨ WholeLines isEnd head) := by
  induction as generalizing first last with
  | nil =>
      obtain ⟨rfl, rfl⟩ := List.append_eq_nil_iff.1 h.symm
      exact ⟨[], [], rfl, rfl, rfl, .inl rfl⟩
  | cons a as ih =>
      cases first with
      | nil => exact ⟨[], a :: as, rfl, rfl, h, .inr wholeLines_nil⟩
      | cons line first =>
          rw [splitLines_cons, consLine.eq_def] at h
          split at h
          · next ha =>
              obtain ⟨rfl, hrest⟩ := List.cons.inj h
              obtain ⟨head, tail, rfl, rfl, rfl, hwhole⟩ := ih hrest
              refine ⟨a :: head, tail, rfl, ?_, rfl, hwhole.imp_right fun h => h.cons fun _ => ha⟩
              exact if_pos ha
          · next ha =>
              split at h
              · next hnil =>
                  obtain rfl := splitLines_eq_nil.1 hnil
                  obtain ⟨rfl, hrest⟩ := List.cons.inj h
                  obtain ⟨rfl, rfl⟩ := List.append_eq_nil_iff.1 hrest.symm
                  exact ⟨[a], [], rfl, by simp [consLine, ha], rfl, .inl rfl⟩
              · next start rest hlines =>
                  obtain ⟨rfl, rfl⟩ := List.cons.inj h
                  have hcut : splitLines isEnd as = (start :: first) ++ last := hlines
                  obtain ⟨head, tail, rfl, hhead, rfl, hwhole⟩ := ih hcut
                  have hne : head ≠ [] := by
                    rintro rfl
                    cases hhead
                  refine ⟨a :: head, tail, rfl, ?_, rfl,
                    hwhole.imp_right fun h => h.cons fun hnil => absurd hnil hne⟩
                  rw [splitLines_cons, hhead]
                  exact if_neg ha

/-! ## Lines that are written in another alphabet -/

/-- Elements that end no line all join the first of the lines behind them. -/
theorem splitLines_append_of_not_isEnd {as : List α} (hne : as ≠ [])
    (h : ∀ a ∈ as, isEnd a = false) (bs : List α) :
    splitLines isEnd (as ++ bs) =
      (as ++ (splitLines isEnd bs).headD []) :: (splitLines isEnd bs).tail := by
  induction as with
  | nil => exact absurd rfl hne
  | cons a as ih =>
      have ha : ¬ isEnd a = true := by simp [h a List.mem_cons_self]
      rw [List.cons_append, splitLines_cons, consLine.eq_def, if_neg ha]
      cases as with
      | nil => cases hlines : splitLines isEnd bs <;> simp [hlines]
      | cons b as =>
          rw [ih (by simp) fun c hc => h c (List.mem_cons_of_mem a hc)]
          rfl

/-- Where line ends are written as line ends, and other elements without them, the lines of what is
written are those of the list. -/
theorem splitLines_flatMap {write : α → List β} {isEndWritten : β → Bool}
    (hend : ∀ a, isEnd a = true → ∃ b, write a = [b] ∧ isEndWritten b = true)
    (hother : ∀ a, isEnd a = false →
      write a ≠ [] ∧ ∀ b ∈ write a, isEndWritten b = false) (as : List α) :
    splitLines isEndWritten (as.flatMap write) =
      (splitLines isEnd as).map fun line => line.flatMap write := by
  induction as with
  | nil => rfl
  | cons a as ih =>
      rw [List.flatMap_cons, splitLines_cons, consLine.eq_def]
      cases ha : isEnd a with
      | true =>
          obtain ⟨b, hwrite, hb⟩ := hend a ha
          rw [hwrite, List.singleton_append, splitLines_cons, ih]
          simp [consLine, hb, hwrite]
      | false =>
          obtain ⟨hne, hnone⟩ := hother a ha
          rw [splitLines_append_of_not_isEnd hne hnone, ih]
          cases splitLines isEnd as <;> simp

end Text

/-! ## Bytes -/

/-- No line of the bytes goes on in the bytes behind them. -/
abbrev EndsLine (bytes behind : List UInt8) : Prop :=
  behind = [] ∨ Text.WholeLines (· == 0x0A) bytes

@[simp] theorem Source.ofBytes_eq_nil {bytes : List UInt8} : ofBytes bytes = [] ↔ bytes = [] := by
  rw [ofBytes, List.map_eq_nil_iff, Text.splitLines_eq_nil]

theorem Source.ofBytes_append {bytes behind : List UInt8} (h : EndsLine bytes behind) :
    ofBytes (bytes ++ behind) = ofBytes bytes ++ ofBytes behind := by
  rcases h with rfl | h
  · simp [ofBytes]
  · rw [ofBytes, Text.splitLines_append h, List.map_append]
    rfl

theorem Source.exists_of_ofBytes {bytes : List UInt8} {first last : Source}
    (h : ofBytes bytes = first ++ last) :
    ∃ head tail, bytes = head ++ tail ∧ ofBytes head = first ∧ ofBytes tail = last ∧
      EndsLine head tail := by
  obtain ⟨firstLines, lastLines, hlines, rfl, rfl⟩ := List.map_eq_append_iff.1 h
  obtain ⟨head, tail, rfl, rfl, rfl, hends⟩ := Text.exists_of_splitLines hlines
  exact ⟨head, tail, rfl, rfl, rfl, hends⟩

theorem Text.encoding_lineFeed : String.utf8EncodeChar '\n' = [0x0A] := by
  decide

private theorem ne_lineFeed_of_toNat {b : UInt8} (h : b.toNat ≠ 0x0A) : (b == 0x0A) = false := by
  rw [beq_eq_false_iff_ne]
  rintro rfl
  exact h rfl

/-- Only the encoding of a line feed has the byte of a line feed. -/
theorem Text.ne_lineFeed_of_mem_encoding {c : Char} (h : c ≠ '\n') {b : UInt8}
    (hb : b ∈ String.utf8EncodeChar c) : (b == 0x0A) = false := by
  have hval : c.val.toNat ≠ 0x0A := fun hval =>
    h (Char.ext (UInt32.toNat_inj.1 hval))
  apply ne_lineFeed_of_toNat
  unfold String.utf8EncodeChar at hb
  generalize c.val.toNat = v at hb hval
  simp only at hb
  -- The bytes of a longer encoding are 128 at least.
  split at hb
  · rw [List.mem_singleton.1 hb, UInt8.toNat_ofNat']
    omega
  · split at hb
    · simp only [List.mem_cons, List.not_mem_nil, or_false] at hb
      rcases hb with rfl | rfl <;> rw [UInt8.toNat_ofNat'] <;> omega
    · split at hb
      · simp only [List.mem_cons, List.not_mem_nil, or_false] at hb
        rcases hb with rfl | rfl | rfl <;> rw [UInt8.toNat_ofNat'] <;> omega
      · simp only [List.mem_cons, List.not_mem_nil, or_false] at hb
        rcases hb with rfl | rfl | rfl | rfl <;> rw [UInt8.toNat_ofNat'] <;> omega

/-- The bytes of a text. -/
def Text.encode (chars : List Char) : List UInt8 :=
  chars.flatMap String.utf8EncodeChar

theorem Text.toUTF8_eq_encode (text : String) :
    text.toUTF8.data.toList = encode text.toList := by
  have hencoded : text.toUTF8 = text.toList.utf8Encode := by
    have hlist := String.toByteArray_ofList (l := text.toList)
    rwa [String.ofList_toList] at hlist
  rw [hencoded, List.utf8Encode, List.toList_data_toByteArray, encode]

/-- Each character is written with its bytes, and a line feed is the only one that ends a line. -/
theorem Text.splitLines_encode (chars : List Char) :
    splitLines (· == 0x0A) (encode chars) = (splitLines (· == '\n') chars).map encode := by
  refine splitLines_flatMap (fun c hc => ?_) (fun c hc => ⟨?_, fun b hb => ?_⟩) chars
  · rw [eq_of_beq hc]
    exact ⟨0x0A, encoding_lineFeed, rfl⟩
  · exact String.utf8EncodeChar_ne_nil
  · exact ne_lineFeed_of_mem_encoding (ne_of_beq_false hc) hb

theorem Source.decodeLine_encode (chars : List Char) :
    decodeLine (Text.encode chars) = .text chars := by
  have hbytes : (⟨(Text.encode chars).toArray⟩ : ByteArray) = (String.ofList chars).toByteArray := by
    rw [String.toByteArray_ofList]
    exact ByteArray.ext List.data_toByteArray.symm
  have hdecoded : String.fromUTF8? ⟨(Text.encode chars).toArray⟩ = some (String.ofList chars) := by
    rw [hbytes, String.fromUTF8?, dif_pos (String.isValidUTF8 _)]
    rfl
  rw [decodeLine, hdecoded]
  simp

/-- The lines of the bytes of a text are the lines of the text. -/
theorem Source.ofBytes_toUTF8 (text : String) :
    ofBytes text.toUTF8.data.toList = ofText text := by
  rw [ofBytes, ofText, Text.toUTF8_eq_encode, Text.splitLines_encode, List.map_map]
  exact List.map_congr_left fun line _ => decodeLine_encode line

end TinyScript

import ModelCar.Proofs.Link.Message

/-!
# Log texts

The frame of a log text carries the longest beginning of whole characters that fits, so it is
read without replacement characters that the text does not have, and what is read gives the
same frame when it is sent again: `log_cut_whole`.
-/

namespace ModelCar.Link

/-- A text and what the frame of a log text carries of it. -/
structure CutTo (text kept : String) : Prop where
  longest : Utf8.LongestBeginning 200 text.toList kept.toList
  nearly_full : 200 < (Utf8.encode text.toList).length → 197 ≤ (Utf8.encode kept.toList).length
  /-- A replacement character is one that the text has in the same place. -/
  genuine : ∀ i : Nat,
    kept.toList[i]? = some Utf8.replacement → text.toList[i]? = some Utf8.replacement

theorem cutTo_of_longestBeginning {text kept : String}
    (h : Utf8.LongestBeginning 200 text.toList kept.toList) :
  CutTo text kept
  := by
  constructor
  · exact h
  · intro hlong
    have := h.le_length_add hlong
    omega
  · intro i hi
    obtain ⟨rest, hrest⟩ := h.isPrefix
    obtain ⟨hlt, -⟩ := List.getElem?_eq_some_iff.mp hi
    rw [← hrest, List.getElem?_append_left hlt, hi]

/-- A text that fits is the payload of its frame as it is. -/
theorem logPayload_of_length_le {text : String}
    (h : (Utf8.encode text.toList).length ≤ logLimit) :
  logPayload text = Utf8.encode text.toList
  := by rw [logPayload_eq, Utf8.keep_of_length_le h]

theorem readLog_frame {text : List Char} (h : (Utf8.encode text).length ≤ logLimit)
    (rest : List UInt8) :
  readLog (frame .log (Utf8.encode text) ++ rest) = .ok (String.ofList text)
  := by
  have hlt : (Utf8.encode text).length < UInt16.size := h.trans_lt (by decide)
  have hfits : Kind.fits .log (Utf8.encode text).length := decide_eq_true h
  simp only [readLog, readKind, payload_frame .log hfits hlt, Utf8.decode_encode]

/-- The way back from the limit in the bytes of a log text does not lead past the first one.
It ends behind the longest beginning of whole characters that has at most 200 bytes.  A
buffer with room for the frame of this beginning gets it, and exactly the beginning is read
from there, whatever follows.  The frame of what was read is the same one. -/
theorem log_cut_whole (text : String) :
  ∃ kept, CutTo text kept ∧
    Utf8.boundaryBefore? (Utf8.encode text.toList) (min (Utf8.encode text.toList).length 200)
      = some (Utf8.encode kept.toList).length ∧
    ∀ buffer : List UInt8,
      (Message.log kept).encode buffer = (Message.log text).encode buffer ∧
      (8 + (Utf8.encode kept.toList).length ≤ buffer.length →
        ∃ after,
          (Message.log text).encode buffer = (.ok (8 + (Utf8.encode kept.toList).length), after) ∧
          ∀ rest, readLog (after.take (8 + (Utf8.encode kept.toList).length) ++ rest) = .ok kept)
  := by
  let kept := Utf8.keep logLimit text.toList
  have hlongest : Utf8.LongestBeginning 200 text.toList kept := Utf8.keep_longestBeginning ..
  have hpayload : (Message.log text).payload = Utf8.encode kept := logPayload_eq text
  have hsame : (Message.log (String.ofList kept)).payload = Utf8.encode kept := by
    rw [Message.payload, logPayload_of_length_le, String.toList_ofList]
    rw [String.toList_ofList]
    exact hlongest.length_le
  have hframe : (Message.log text).frame = frame .log (Utf8.encode kept) := by
    rw [Message.frame, hpayload, Message.kind]
  have hlength : (Message.log text).frame.length = 8 + (Utf8.encode kept).length := by
    rw [Message.length_frame, hpayload, headerSize, crcSize]
    omega
  use String.ofList kept
  rw [String.toList_ofList, ← hlength]
  refine ⟨cutTo_of_longestBeginning ?_, Utf8.boundaryBefore?_encode hlongest, ?_⟩
  · rwa [String.toList_ofList]
  · intro buffer
    constructor
    · rw [Message.encode, Message.encode, hsame, hpayload, Message.kind, Message.kind]
    · intro hroom
      refine ⟨_, Message.encode_of_le _ hroom, ?_⟩
      intro rest
      rw [List.take_left, hframe, readLog_frame hlongest.length_le]

/-- A text with one byte too many.  Its last character has four. -/
def edgeText : String :=
  String.ofList ('a' :: List.replicate 50 '😀')

theorem log_cut_whole_edgeText :
  205 ≤ (List.replicate 256 (0 : UInt8)).length ∧
    ∃ after, (Message.log edgeText).encode (List.replicate 256 0) = (.ok 205, after) ∧
      readLog (after.take 205) = .ok (String.ofList ('a' :: List.replicate 49 '😀'))
  := by
  have hroom : 205 ≤ (List.replicate 256 (0 : UInt8)).length := by
    rw [List.length_replicate]
    decide
  obtain ⟨kept, hcut, -, hbuffer⟩ := log_cut_whole edgeText
  have hcutTo : kept.toList = Utf8.keep 200 ('a' :: List.replicate 50 '😀') := by
    rw [← String.toList_ofList (l := 'a' :: List.replicate 50 '😀')]
    exact hcut.longest.eq (Utf8.keep_longestBeginning ..)
  have hkeep : Utf8.keep 200 ('a' :: List.replicate 50 '😀') = 'a' :: List.replicate 49 '😀' := by
    decide +kernel
  have hkept := hcutTo.trans hkeep
  have hlength : (Utf8.encode kept.toList).length = 197 := by
    rw [hkept]
    decide +kernel
  obtain ⟨-, hwrite⟩ := hbuffer (List.replicate 256 0)
  rw [hlength] at hwrite
  obtain ⟨after, hencode, hread⟩ := hwrite hroom
  refine ⟨hroom, after, hencode, ?_⟩
  rw [← List.append_nil (after.take 205), hread [], ← hkept, String.ofList_toList]

end ModelCar.Link

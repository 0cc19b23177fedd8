import ImageBatch.Proofs.Text.Bytes
import ImageBatch.Proofs.Tool.Words

/-!
# The words that are kept

A tool's words are cut behind a whole character. The place of the cut can be found in their bytes
alone: going back from the bound, byte by byte, the first place that is not inside a character is
the end of the longest start of the words that fits. It is at most three bytes back, so there is
always something to keep, and the bytes in front of it are a text.
-/

namespace ImageBatch

namespace Text

/-! ## Places between two characters -/

/-- A byte with which a character can start: all but those that continue one. -/
def isStart (b : UInt8) : Bool := b < 0x80 || 0xC0 ≤ b

/-- A place in the bytes of a text that is not inside a character. -/
def isBoundary (s : String) (i : Nat) : Bool :=
  i == 0 || if i < s.utf8ByteSize then (bytes s)[i]?.any isStart else i == s.utf8ByteSize

/-- Goes back, byte by byte, to a place that is not inside a character, unless there is none. -/
def boundaryBelow? (s : String) : Nat → Option Nat
  | 0 => if isBoundary s 0 then some 0 else none
  | n + 1 => if isBoundary s (n + 1) then some (n + 1) else boundaryBelow? s n

/-- The text in front of a place, unless that is inside a character or the bytes are no text. -/
def before? (s : String) (i : Nat) : Option String :=
  if isBoundary s i then decode? (s.toUTF8.extract 0 i) else none

/-- The longest start of a text, in whole characters, that fits into so many bytes. -/
structure IsLongestStart (room : Nat) (kept s : String) : Prop where
  start : kept.toList <+: s.toList
  fits : kept.utf8ByteSize ≤ room
  longest : ∀ t : String, t.toList <+: s.toList → t.utf8ByteSize ≤ room → t.toList <+: kept.toList

theorem byteLength_cons (c : Char) (cs : List Char) :
    byteLength (c :: cs) = c.utf8Size + byteLength cs := rfl

theorem utf8ByteSize_ofList (cs : List Char) : (String.ofList cs).utf8ByteSize = byteLength cs := by
  rw [String.utf8ByteSize_ofList]
  induction cs with
  | nil => rfl
  | cons c cs ih => rw [String.utf8Len_cons, ih, byteLength_cons, Nat.add_comm]

theorem byteLength_toList (s : String) : byteLength s.toList = s.utf8ByteSize := by
  rw [← utf8ByteSize_ofList, String.ofList_toList]

theorem byteLength_append (cs ds : List Char) :
    byteLength (cs ++ ds) = byteLength cs + byteLength ds := by
  rw [← utf8ByteSize_ofList, String.ofList_append, String.utf8ByteSize_append,
    utf8ByteSize_ofList, utf8ByteSize_ofList]

theorem isStart_ofNat {n : Nat} (h : n < 256) :
    isStart (UInt8.ofNat n) = decide (n < 128 ∨ 192 ≤ n) := by
  rw [isStart, Bool.decide_or]
  congr 1
  · rw [decide_eq_decide, UInt8.lt_iff_toNat_lt, UInt8.toNat_ofNat_of_lt' h]
    rfl
  · rw [decide_eq_decide, UInt8.le_iff_toNat_le, UInt8.toNat_ofNat_of_lt' h]
    rfl

theorem isStart_rest (n : Nat) : isStart (UInt8.ofNat (n % 64 + 128)) = false := by
  rw [isStart_ofNat (by omega)]
  exact decide_eq_false (by omega)

/-- A character has one byte with which it can start, and that is its first one. -/
theorem encode_cases (c : Char) : ∃ b bs, String.utf8EncodeChar c = b :: bs ∧
    isStart b = true ∧ ∀ d ∈ bs, isStart d = false := by
  have hbound : c.val.toNat < 0x110000 := toNat_lt c
  unfold String.utf8EncodeChar
  generalize c.val.toNat = v at hbound ⊢
  dsimp only
  split_ifs
  all_goals
    refine ⟨_, _, rfl, ?_, ?_⟩
    · rw [isStart_ofNat (by omega)]
      exact decide_eq_true (by omega)
    · simp only [List.mem_cons, List.not_mem_nil, or_false, forall_eq_or_imp, forall_eq,
        isStart_rest, false_imp_iff, implies_true, and_self]

/-- The places that are not inside a character are those behind some of the characters. -/
theorem exists_start_iff (cs : List Char) (i : Nat) :
    (∃ front, front <+: cs ∧ byteLength front = i) ↔
      i = byteLength cs ∨ (cs.flatMap String.utf8EncodeChar)[i]?.any isStart = true := by
  induction cs generalizing i with
  | nil =>
      simp only [List.prefix_nil, exists_eq_left, List.flatMap_nil, List.getElem?_nil,
        Option.any_none, Bool.false_eq_true, or_false]
      exact eq_comm
  | cons c cs ih =>
      obtain ⟨b, bs, hbytes, hb, hbs⟩ := encode_cases c
      have hsize : c.utf8Size = (b :: bs).length := by rw [← hbytes, String.length_utf8EncodeChar]
      have hfront : (∃ front, front <+: c :: cs ∧ byteLength front = i) ↔
          i = 0 ∨ c.utf8Size ≤ i ∧ ∃ front, front <+: cs ∧ byteLength front = i - c.utf8Size := by
        constructor
        · rintro ⟨front, hfront, rfl⟩
          rcases List.prefix_cons_iff.mp hfront with rfl | ⟨rest, rfl, hrest⟩
          · exact .inl rfl
          · exact .inr ⟨Nat.le_add_right .., rest, hrest, (Nat.add_sub_cancel_left ..).symm⟩
        · rintro (rfl | ⟨hle, rest, hrest, hlen⟩)
          · exact ⟨[], List.nil_prefix, rfl⟩
          · refine ⟨c :: rest, (List.prefix_cons_inj c).mpr hrest, ?_⟩
            rw [byteLength_cons, hlen, Nat.add_sub_cancel' hle]
      rw [hfront, ih, List.flatMap_cons, hbytes, byteLength_cons, List.getElem?_append, ← hsize]
      by_cases hle : c.utf8Size ≤ i
      · have hpos := c.utf8Size_pos
        rw [if_neg (Nat.not_lt.mpr hle), or_iff_right (by omega), and_iff_right hle]
        exact or_congr_left (by omega)
      · rw [if_pos (Nat.not_le.mp hle), or_iff_left (fun h => hle h.1), or_iff_right (by omega)]
        cases i with
        | zero => simp [hb]
        | succ j =>
            have hj : j < bs.length := by simpa [hsize] using hle
            simp [List.getElem?_eq_getElem hj, hbs]

theorem isBoundary_iff (s : String) (i : Nat) :
    isBoundary s i = true ↔ ∃ front, front <+: s.toList ∧ byteLength front = i := by
  have hlen : (s.toList.flatMap String.utf8EncodeChar).length = s.utf8ByteSize := by
    rw [← bytes_eq_flatMap, bytes, Array.length_toList]
    rfl
  rw [isBoundary, Bool.or_eq_true, beq_iff_eq]
  by_cases hzero : i = 0
  · exact iff_of_true (.inl hzero) ⟨[], List.nil_prefix, hzero.symm⟩
  · rw [or_iff_right hzero, exists_start_iff, byteLength_toList, bytes_eq_flatMap]
    split
    · next hlt => rw [or_iff_right hlt.ne]
    · next hge => rw [List.getElem?_eq_none (by omega)]; simp

/-! ## The longest start -/

theorem byteLength_takeBytes_le (room : Nat) (cs : List Char) :
    byteLength (takeBytes room cs) ≤ room := by
  induction cs generalizing room with
  | nil => exact Nat.zero_le _
  | cons c cs ih =>
      rw [takeBytes]
      split
      · have hrest := ih (room - c.utf8Size)
        rw [byteLength_cons]
        omega
      · exact Nat.zero_le _

theorem isPrefix_takeBytes {room : Nat} {front cs : List Char} (h : front <+: cs)
    (hroom : byteLength front ≤ room) : front <+: takeBytes room cs := by
  induction cs generalizing room front with
  | nil => exact h
  | cons c cs ih =>
      rcases List.prefix_cons_iff.mp h with rfl | ⟨rest, rfl, hrest⟩
      · exact List.nil_prefix
      · rw [byteLength_cons] at hroom
        rw [takeBytes, if_pos (by omega)]
        exact (List.prefix_cons_inj c).mpr (ih hrest (by omega))

theorem lt_byteLength_takeBytes {room : Nat} {cs : List Char} (h : room < byteLength cs) :
    room < byteLength (takeBytes room cs) + 4 := by
  induction cs generalizing room with
  | nil => exact absurd h (Nat.not_lt_zero _)
  | cons c cs ih =>
      rw [byteLength_cons] at h
      rw [takeBytes]
      split
      · have hrest : room - c.utf8Size < byteLength (takeBytes (room - c.utf8Size) cs) + 4 :=
          ih (by omega)
        rw [byteLength_cons]
        omega
      · have hfour := c.utf8Size_le_four
        omega

theorem isLongestStart_takeBytes (room : Nat) (s : String) :
    IsLongestStart room (String.ofList (takeBytes room s.toList)) s := by
  refine ⟨?_, ?_, ?_⟩
  · rw [String.toList_ofList]
    exact takeBytes_isPrefix room s.toList
  · rw [utf8ByteSize_ofList]
    exact byteLength_takeBytes_le room s.toList
  · intro t ht hroom
    rw [String.toList_ofList]
    exact isPrefix_takeBytes ht (byteLength_toList t ▸ hroom)

/-! ## The way back -/

/-- The way back ends at the last place that is not inside a character. -/
theorem boundaryBelow?_eq_some {s : String} {n k : Nat} (hk : isBoundary s k = true) (hle : k ≤ n)
    (hlast : ∀ j, k < j → j ≤ n → isBoundary s j = false) : boundaryBelow? s n = some k := by
  induction n with
  | zero =>
      obtain rfl : k = 0 := Nat.le_zero.mp hle
      rw [boundaryBelow?, if_pos hk]
  | succ n ih =>
      rw [boundaryBelow?]
      rcases Nat.eq_or_lt_of_le hle with rfl | hlt
      · rw [if_pos hk]
      · rw [hlast (n + 1) hlt (Nat.le_refl _), if_neg Bool.false_ne_true]
        exact ih (Nat.le_of_lt_succ hlt) fun j hj hn => hlast j hj (Nat.le_succ_of_le hn)

theorem isBoundary_takeBytes (room : Nat) (s : String) :
    isBoundary s (byteLength (takeBytes room s.toList)) = true :=
  (isBoundary_iff s _).mpr ⟨_, takeBytes_isPrefix room s.toList, rfl⟩

theorem boundaryBelow?_eq (room : Nat) (s : String) :
    boundaryBelow? s room = some (byteLength (takeBytes room s.toList)) := by
  refine boundaryBelow?_eq_some (isBoundary_takeBytes room s) (byteLength_takeBytes_le ..) ?_
  intro j hlt hle
  refine Bool.eq_false_iff.mpr fun hj => ?_
  obtain ⟨front, hfront, rfl⟩ := (isBoundary_iff s j).mp hj
  obtain ⟨rest, hrest⟩ := isPrefix_takeBytes hfront hle
  rw [← hrest, byteLength_append] at hlt
  omega

/-- In front of a place that is not inside a character there is a text. -/
theorem before?_append (kept rest : String) :
    before? (kept ++ rest) kept.utf8ByteSize = some kept := by
  have hplace : isBoundary (kept ++ rest) kept.utf8ByteSize = true := by
    refine (isBoundary_iff _ _).mpr ⟨kept.toList, ?_, byteLength_toList kept⟩
    rw [String.toList_append]
    exact List.prefix_append ..
  have hbytes : (kept ++ rest).toUTF8.extract 0 kept.utf8ByteSize = kept.toByteArray := by
    rw [String.toUTF8, String.toByteArray_append, ByteArray.extract_append_eq_left]
    exact String.size_toByteArray.symm
  rw [before?, if_pos hplace, hbytes, decode?, String.fromUTF8?, dif_pos kept.isValidUTF8]
  rfl

theorem before?_takeBytes (room : Nat) (s : String) :
    before? s (byteLength (takeBytes room s.toList)) =
      some (String.ofList (takeBytes room s.toList)) := by
  obtain ⟨rest, hrest⟩ := takeBytes_isPrefix room s.toList
  have hs : s = String.ofList (takeBytes room s.toList) ++ String.ofList rest := by
    rw [← String.ofList_append, hrest, String.ofList_toList]
  have hbefore := before?_append (String.ofList (takeBytes room s.toList)) (String.ofList rest)
  rwa [← hs, utf8ByteSize_ofList] at hbefore

end Text

namespace Tool

/-! ## The cut -/

theorem complaint_of_words {e : Shell.Ended} {cs : List Char} (h : words e = cs) (hne : cs ≠ [])
    (command : String) : complaint command e = String.ofList (shortened cs) := by
  rw [complaint, h, if_neg (by simpa using hne)]

/-- A text that fits is said whole. Of a longer one the longest start that fits is said, and that
something is missing. The way back from the bound finds the end of that start, and stops there: that
is a place that is not inside a character, behind the start of the text and at most three bytes in
front of the bound, and so there is a text in front of it. What is said is the message of a tool
that ends without success. -/
theorem cuts_at_boundary (s : String) :
    (s.utf8ByteSize ≤ wordsBound → String.ofList (shortened s.toList) = s) ∧
    (wordsBound < s.utf8ByteSize → ∃ cut kept,
      Text.boundaryBelow? s wordsBound = some cut ∧ Text.isBoundary s cut = true ∧
      0 < cut ∧ cut ≤ wordsBound ∧ wordsBound ≤ cut + 3 ∧
      Text.before? s cut = some kept ∧ kept.utf8ByteSize = cut ∧
      Text.IsLongestStart wordsBound kept s ∧
      String.ofList (shortened s.toList) = kept ++ "... [truncated]") ∧
    ∀ (command : String) (time : Span) (e : Shell.Ended), e.status ≠ some 0 →
      words e = s.toList → s ≠ "" →
      (failure? command time (.ended e)).map Failure.message =
        some (String.ofList (shortened s.toList)) := by
  have hsize := Text.byteLength_toList s
  refine ⟨fun hfits => ?_, fun hlong => ?_, fun command time e hstatus hwords hne => ?_⟩
  · rw [shortened, if_neg (by omega), String.ofList_toList]
  · have hfour := Text.lt_byteLength_takeBytes (hsize ▸ hlong)
    have hbound : wordsBound = 4000 := rfl
    refine ⟨_, _, Text.boundaryBelow?_eq wordsBound s, Text.isBoundary_takeBytes wordsBound s,
      by omega, Text.byteLength_takeBytes_le .., by omega, Text.before?_takeBytes wordsBound s,
      Text.utf8ByteSize_ofList _, Text.isLongestStart_takeBytes wordsBound s, ?_⟩
    rw [shortened, if_pos (by omega), String.ofList_append, String.ofList_toList]
  · have hsome : s.toList ≠ [] := fun hnil => hne (String.toList_eq_nil_iff.mp hnil)
    rw [failure?, if_neg hstatus, complaint_of_words hwords hsome]
    rfl

/-- Progress that leaves three bytes of the bound. -/
def progress : String := String.ofList (List.replicate 3997 '.')

/-- A tool that shows this progress and then a face of four bytes. -/
def faceAtBound : Shell.Ended where
  status := some 1
  output := ByteArray.empty
  errors := ⟨(List.replicate 3997 46 ++ "😀".toUTF8.data.toList).toArray⟩

theorem utf8ByteSize_progress : progress.utf8ByteSize = 3997 := by
  have hsize : Text.byteLength (List.replicate 3997 '.') = 3997 := by decide +kernel
  exact (Text.utf8ByteSize_ofList _).trans hsize

theorem toList_face : (progress ++ "😀").toList = progress.toList ++ ['😀'] :=
  String.toList_append

theorem words_faceAtBound : words faceAtBound = (progress ++ "😀").toList := by
  have hlist : progress.toList = List.replicate 3997 '.' := String.toList_ofList
  rw [toList_face, hlist, words, Text.toList_bytes]
  decide +kernel

/-- The face does not fit, and so three bytes are given up. -/
theorem cuts_at_boundary_of_face :
    wordsBound < (progress ++ "😀").utf8ByteSize ∧
    Text.boundaryBelow? (progress ++ "😀") wordsBound = some 3997 ∧
    faceAtBound.status ≠ some 0 ∧ words faceAtBound = (progress ++ "😀").toList ∧
    progress ++ "😀" ≠ "" ∧
    (failure? "skopeo" ⟨0⟩ (.ended faceAtBound)).map Failure.message =
      some (progress ++ "... [truncated]") := by
  have hsize : (progress ++ "😀").utf8ByteSize = 4001 := by
    rw [String.utf8ByteSize_append, utf8ByteSize_progress]
    rfl
  have hlong : wordsBound < (progress ++ "😀").utf8ByteSize := by
    rw [hsize]
    decide
  have hsome : progress ++ "😀" ≠ "" := fun hnone => by simp [hnone] at hsize
  obtain ⟨-, hcut, hmessage⟩ := cuts_at_boundary (progress ++ "😀")
  obtain ⟨cut, kept, hback, -, -, -, -, -, hlen, hlongest, hsaid⟩ := hcut hlong
  have hkept : kept = progress := by
    have hprogress : progress.toList <+: kept.toList := by
      refine hlongest.longest progress ?_ (by rw [utf8ByteSize_progress]; decide)
      rw [toList_face]
      exact List.prefix_append ..
    have hstart : kept.toList <+: progress.toList ++ ['😀'] := by
      rw [← toList_face]
      exact hlongest.start
    rcases List.prefix_concat_iff.mp hstart with hall | hfront
    · have hwhole : kept = progress ++ "😀" :=
        String.toList_inj.mp (hall.trans toList_face.symm)
      have hover : kept.utf8ByteSize = 4001 := (congrArg String.utf8ByteSize hwhole).trans hsize
      exact absurd (hover ▸ hlongest.fits) (by decide)
    · exact String.toList_inj.mp (hfront.eq_of_length_le hprogress.length_le)
  rw [hkept] at hlen hsaid
  refine ⟨hlong, ?_, by decide, words_faceAtBound, hsome, ?_⟩
  · rw [hback, ← hlen, utf8ByteSize_progress]
  · rw [hmessage "skopeo" ⟨0⟩ faceAtBound (by decide) words_faceAtBound hsome, hsaid]

end Tool

end ImageBatch

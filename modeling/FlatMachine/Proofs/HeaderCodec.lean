import FlatMachine.Proofs.BootImage
import Mathlib.Data.List.Basic

/-!
# A header is its sixteen bytes

Writing a header puts words one behind the other, and reading one cuts words out by
their position. Neither knows of the other's arithmetic, so the two meet in lemmas
about any number of words: the word cut out at a position is the one that was put
there, and words cut out one after the other are the bytes that they were cut from.

Four words are then sixteen bytes and nothing else. Reading never looks further, and
whatever it reads, writing gives the same bytes back, also where no image that boots
would have them.
-/

namespace FlatMachine.Header

variable {h : Header} {image : List UInt8}

/-! ## Rows of words -/

theorem wordAt_zero (w : UInt32) (bs : List UInt8) :
    wordAt (Word.toBytes w ++ bs) 0 = w := by
  show Word.ofBytes ((Word.toBytes w ++ bs).take 4) = w
  rw [List.take_left' (Word.length_toBytes w), Word.ofBytes_toBytes]

theorem wordAt_succ (w : UInt32) (bs : List UInt8) (i : Nat) :
    wordAt (Word.toBytes w ++ bs) (i + 1) = wordAt bs i := by
  have hdrop : (Word.toBytes w ++ bs).drop (4 * (i + 1)) = bs.drop (4 * i) := by
    rw [Nat.mul_succ, Nat.add_comm, ← List.drop_drop,
      List.drop_left' (Word.length_toBytes w)]
  exact congrArg (fun cs => Word.ofBytes (cs.take 4)) hdrop

theorem wordAt_flatMap {ws : List UInt32} {i : Nat} {w : UInt32} (h : ws[i]? = some w)
    (bs : List UInt8) : wordAt (ws.flatMap Word.toBytes ++ bs) i = w := by
  induction ws generalizing i with
  | nil => simp at h
  | cons v ws ih =>
      rw [List.flatMap_cons, List.append_assoc]
      cases i with
      | zero =>
          simp only [List.getElem?_cons_zero, Option.some.injEq] at h
          rw [wordAt_zero, h]
      | succ i =>
          simp only [List.getElem?_cons_succ] at h
          rw [wordAt_succ, ih h]

theorem flatMap_wordAt {bs : List UInt8} {n : Nat} (h : 4 * n ≤ bs.length) :
    ((List.range n).map (wordAt bs)).flatMap Word.toBytes = bs.take (4 * n) := by
  rw [← flatMap_pieces, List.flatMap_map]
  refine List.flatMap_congr ?_
  intro i hi
  rw [List.mem_range] at hi
  refine Word.toBytes_ofBytes ?_
  show ((bs.drop (4 * i)).take 4).length = 4
  simp only [List.length_take, List.length_drop]
  omega

/-! ## Headers -/

@[simp] theorem length_toBytes (h : Header) : h.toBytes.length = 16 := by
  simp [toBytes, words]

theorem toBytes_header (hlen : 16 ≤ image.length) :
    (Image.header image).toBytes = image.take 16 :=
  flatMap_wordAt (n := 4) hlen

theorem header_withProgram (h : Header) (program : List UInt8) :
    Image.header (h.withProgram program) = h := by
  have hword : ∀ i w, h.words[i]? = some w → wordAt (h.withProgram program) i = w :=
    fun i w hw => wordAt_flatMap hw program
  rw [Image.header, hword 0 _ rfl, hword 1 _ rfl, hword 2 _ rfl, hword 3 _ rfl]

theorem ofBytes?_of_long (hlen : 16 ≤ image.length) :
    ofBytes? image = some (Image.header image) :=
  if_neg (Nat.not_lt_of_le hlen)

theorem ofBytes?_eq_none_iff : ofBytes? image = none ↔ image.length < 16 := by
  by_cases hshort : image.length < 16
  · simp [ofBytes?, size, hshort]
  · simp [ofBytes?_of_long (Nat.le_of_not_lt hshort), hshort]

theorem ofBytes?_withProgram (h : Header) (program : List UInt8) :
    ofBytes? (h.withProgram program) = some h := by
  rw [ofBytes?_of_long (by simp [withProgram]), header_withProgram]

theorem withProgram_drop_iff :
    h.withProgram (image.drop 16) = image ↔ image.take 16 = h.toBytes := by
  constructor
  · intro himage
    rw [← himage, withProgram, List.take_left' (length_toBytes h)]
  · intro htake
    rw [withProgram, ← htake, List.take_append_drop]

/-- A header is read exactly off the images that begin with its bytes. -/
theorem ofBytes?_eq_some_iff : ofBytes? image = some h ↔ image.take 16 = h.toBytes := by
  constructor
  · intro hread
    have hlen : 16 ≤ image.length := by
      refine Nat.le_of_not_lt fun hshort => ?_
      rw [ofBytes?_eq_none_iff.mpr hshort] at hread
      cases hread
    rw [ofBytes?_of_long hlen, Option.some.injEq] at hread
    rw [← toBytes_header hlen, hread]
  · intro htake
    rw [← withProgram_drop_iff.mpr htake, ofBytes?_withProgram]

theorem drop_withProgram (h : Header) (program : List UInt8) :
    (h.withProgram program).drop 16 = program :=
  List.drop_left' (length_toBytes h)

/-- Reading and writing undo each other, for every header and every byte string. A
header is read off what it was written to, whatever comes behind it. Nothing is read
off fewer than sixteen bytes, and what is read off more is the header whose bytes
come first, so that writing it in front of the rest gives the image again. Images are
written alike only from the same header and the same program. -/
theorem images_read_back :
    (∀ (h : Header) (program : List UInt8), ofBytes? (h.withProgram program) = some h) ∧
    (∀ image : List UInt8, ofBytes? image = none ↔ image.length < 16) ∧
    (∀ (image : List UInt8) (h : Header), ofBytes? image = some h ↔
      16 ≤ image.length ∧ h.withProgram (image.drop 16) = image) ∧
    (∀ (image : List UInt8) (h : Header), ofBytes? image = some h ↔
      image.take 16 = h.toBytes) ∧
    (∀ (h h' : Header) (program program' : List UInt8),
      h.withProgram program = h'.withProgram program' ↔ h = h' ∧ program = program') := by
  refine ⟨ofBytes?_withProgram, fun image => ofBytes?_eq_none_iff, fun image h => ?_,
    fun image h => ofBytes?_eq_some_iff, fun h h' program program' => ⟨fun heq => ?_, ?_⟩⟩
  · rw [withProgram_drop_iff, ofBytes?_eq_some_iff, iff_and_self]
    intro htake
    have hlen := congrArg List.length htake
    simp only [List.length_take, length_toBytes] at hlen
    omega
  · have hread := ofBytes?_withProgram h program
    rw [heq, ofBytes?_withProgram, Option.some.injEq] at hread
    have hrest := congrArg (List.drop 16) heq
    rw [drop_withProgram, drop_withProgram] at hrest
    exact ⟨hread.symm, hrest⟩
  · rintro ⟨rfl, rfl⟩
    rfl

end FlatMachine.Header

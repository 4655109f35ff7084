import Pom68k.Floppy.Commits

/-! # Reading MFM

Once the reader has found a mark it keeps step with the bytes of the track, and reads each
of them whatever cells they are made of.
-/

namespace Pom68k.Floppy

open Foundation

namespace SonyDrive

/-! ## A byte in the reader -/

/-- What the reader holds of a byte: its bits, and the last cells. -/
structure Frame where
  sr : BitVec 16
  tss : Byte
deriving DecidableEq

/-- A clock and a bit of data, the `i`th of a byte. The first bit clears the frame. -/
def Frame.pair (f : Frame) (i : Nat) (p : Bool × Bool) : Frame :=
  let clock := f.tss <<< 1 ||| (if p.1 then 1#16 else 0#16).setWidth 8
  let f : Frame :=
    if i = 0 then ⟨0#16, 0xFF#8⟩
    else ⟨if clock &&& 0x0F#8 = 1#8 then f.sr ||| kMark else f.sr, clock⟩
  let bit : BitVec 16 := if p.2 then 1#16 else 0#16
  ⟨f.sr ||| bit <<< (7 - i), f.tss <<< 1 ||| bit.setWidth 8⟩

/-- The rest of a byte. -/
def Frame.gather : Nat → Frame → List (Bool × Bool) → Frame
  | _, f, [] => f
  | i, f, p :: rest => Frame.gather (i + 1) (f.pair i p) rest

/-- Cells of one write. -/
def unspliced (cells : List Bool) : List (Bool × Bool) := cells.map fun cell => (false, cell)

def pairCells (pairs : List (Bool × Bool)) : List Bool := pairs.flatMap fun p => [p.1, p.2]

variable {s : MfmReader}

theorem read_pair {i : Nat} (small : i < 8) (here : s.sync = 80 + 2 * i) (p : Bool × Bool) :
    feed readMfm s (unspliced [p.1, p.2]) =
      MfmReader.closed ⟨(Frame.pair ⟨s.sr, s.tss⟩ i p).sr, crcBit crcPoly s.crc p.2,
        (Frame.pair ⟨s.sr, s.tss⟩ i p).tss, 82 + 2 * i⟩ := by
  obtain ⟨sr, crc, tss, sync⟩ := s
  subst here
  interval_cases i <;>
    simp [unspliced, feed, readMfm, MfmReader.shifted, MfmReader.closed, Frame.pair]

/-- The pairs of a byte from the `i`th on, read one by one. -/
theorem read_pairs {i : Nat} {pairs : List (Bool × Bool)} (count : i + pairs.length = 8)
    (some : pairs ≠ []) (here : s.sync = 80 + 2 * i) :
    feed readMfm s (unspliced (pairCells pairs)) =
      MfmReader.closed ⟨(Frame.gather i ⟨s.sr, s.tss⟩ pairs).sr,
        (pairs.map Prod.snd).foldl (crcBit crcPoly) s.crc,
        (Frame.gather i ⟨s.sr, s.tss⟩ pairs).tss, 96⟩ := by
  induction pairs generalizing s i with
  | nil => exact absurd rfl some
  | cons p rest ih =>
    rw [List.length_cons] at count
    have split : unspliced (pairCells (p :: rest)) =
        unspliced [p.1, p.2] ++ unspliced (pairCells rest) := by
      rfl
    rw [split, feed_append, read_pair (by omega) here]
    cases rest with
    | nil =>
      have last : i = 7 := by simpa using count
      subst last
      rfl
    | cons q later =>
      have more : 82 + 2 * i ≠ 80 ∧ 82 + 2 * i ≠ 96 := by
        rw [List.length_cons] at count
        omega
      rw [MfmReader.closed, if_neg more.1, if_neg more.2]
      rw [ih (i := i + 1) (by omega) (List.cons_ne_nil _ _) (by dsimp only; omega)]
      rfl

/-- The cells of a byte in pairs. -/
def mfmPairs (last : Bool) (b : Byte) : List (Bool × Bool) :=
  let bits := msbFirst b
  List.zipWith (fun before bit => (!before && !bit, bit)) (last :: bits) bits

theorem cells_zip (last : Bool) (bits : List Bool) :
    (feed clocked last bits).2 =
        pairCells (List.zipWith (fun before bit => (!before && !bit, bit)) (last :: bits) bits) ∧
      (List.zipWith (fun before bit => (!before && !bit, bit)) (last :: bits) bits).map Prod.snd =
        bits := by
  induction bits generalizing last with
  | nil => exact ⟨rfl, rfl⟩
  | cons bit rest ih =>
    exact ⟨congrArg ([!last && !bit, bit] ++ ·) (ih bit).1, congrArg (bit :: ·) (ih bit).2⟩

theorem cells_mfmPairs (last : Bool) (b : Byte) :
    (feed clocked last (msbFirst b)).2 = pairCells (mfmPairs last b) ∧
      (mfmPairs last b).map Prod.snd = msbFirst b ∧ (mfmPairs last b).length = 8 :=
  ⟨(cells_zip last _).1, (cells_zip last _).2, rfl⟩

/-- The first bit forgets what was there. -/
theorem gather_fresh (f : Frame) (pairs : List (Bool × Bool)) (some : pairs ≠ []) :
    Frame.gather 0 f pairs = Frame.gather 0 ⟨0#16, 0#8⟩ pairs := by
  cases pairs with
  | nil => exact absurd rfl some
  | cons p rest => rfl

/-- The code has no three cells in a row that are not set, so it holds no mark. -/
theorem gather_bits : ∀ last b₀ b₁ b₂ b₃ b₄ b₅ b₆ b₇ : Bool,
    (Frame.gather 0 ⟨0#16, 0#8⟩ (List.zipWith (fun before bit => (!before && !bit, bit))
      [last, b₀, b₁, b₂, b₃, b₄, b₅, b₆, b₇] [b₀, b₁, b₂, b₃, b₄, b₅, b₆, b₇])).sr =
      (BitVec.ofBoolListBE [b₀, b₁, b₂, b₃, b₄, b₅, b₆, b₇]).setWidth 16 := by
  decide +kernel

theorem gather_mfmPairs (last : Bool) (b : Byte) :
    (Frame.gather 0 ⟨0#16, 0#8⟩ (mfmPairs last b)).sr = b.setWidth 16 := by
  have bit {i : Nat} (inside : i < 8) : (msbFirst b).getD i false = b.getMsbD i := by
    rw [List.getD_eq_getElem?_getD, msbFirst, List.getElem?_map, List.getElem?_range inside]
    rfl
  have whole : BitVec.ofBoolListBE (msbFirst b) = b :=
    BitVec.eq_of_getMsbD_eq fun i inside => BitVec.getMsbD_ofBoolListBE.trans (bit inside)
  exact (gather_bits last _ _ _ _ _ _ _ _).trans (congrArg (BitVec.setWidth 16) whole)

theorem plain_unmarked : ∀ b : Byte, b.setWidth 16 &&& kMark = 0#16 := by
  decide

theorem setWidth_plain (b : Byte) : (b.setWidth 16).setWidth 8 = b := by
  rw [BitVec.setWidth_setWidth_of_le b (by decide), BitVec.setWidth_eq]

/-- The cells of a mark, clock and data. -/
def markPairs : List (Bool × Bool) :=
  [(false, true), (false, false), (false, true), (false, false), (true, false), (false, false),
    (true, false), (false, true)]

theorem cells_markPairs : msbFirst 0x4489#16 = pairCells markPairs := by decide

theorem closed_byte (sr crc : BitVec 16) (tss : Byte) (mark : Bool)
    (marked : decide (sr &&& kMark ≠ 0#16) = mark) :
    MfmReader.closed ⟨sr, crc, tss, 96⟩ =
      (⟨sr, if mark then 0xCDB4#16 else crc, tss, 80⟩,
        [⟨sr.setWidth 8, mark, !mark && decide (crc = 0#16)⟩]) := by
  rw [← marked]
  rfl

/-! ## Bytes of a track -/

/-- What the reader makes of a byte once it keeps step. -/
def readByte (crc : BitVec 16) (v : BitVec 16) : BitVec 16 × List TByte :=
  if v &&& kMark ≠ 0#16 then (0xCDB4#16, [⟨0xA1#8, true, false⟩])
  else
    let next := crcOctet crcPoly crc (v.setWidth 8)
    (next, [⟨v.setWidth 8, false, decide (next = 0#16)⟩])

/-- The reader is at the end of a byte. -/
def InStep (s : MfmReader) (crc : BitVec 16) : Prop := s.sync = 80 ∧ s.crc = crc

def mfmCode (last : Bool) (v : BitVec 16) : Bool × List (Bool × Bool) :=
  ((mfmCells last v).1, unspliced (mfmCells last v).2)

theorem inStep_byte {crc : BitVec 16} (step : InStep s crc) (last : Bool) (v : BitVec 16) :
    InStep (feed readMfm s (mfmCode last v).2).1 (readByte crc v).1 ∧
      (feed readMfm s (mfmCode last v).2).2 = (readByte crc v).2 := by
  obtain ⟨sync, rfl⟩ := step
  rw [mfmCode, mfmCells, readByte]
  by_cases mark : v &&& kMark ≠ 0#16
  · rw [if_pos mark, if_pos mark]
    have some : markPairs ≠ [] := List.cons_ne_nil _ _
    rw [cells_markPairs, read_pairs rfl some sync, gather_fresh _ _ some,
      closed_byte _ _ _ true (by decide)]
    exact ⟨⟨rfl, rfl⟩, rfl⟩
  · rw [if_neg mark, if_neg mark]
    obtain ⟨cells, bits, count⟩ := cells_mfmPairs last (v.setWidth 8)
    have some : mfmPairs last (v.setWidth 8) ≠ [] := by
      intro none
      rw [none] at count
      cases count
    rw [cells, read_pairs (by rw [count]) some sync, gather_fresh _ _ some,
      gather_mfmPairs, bits, ← crcOctet_eq,
      closed_byte _ _ _ false (by rw [plain_unmarked]; decide), setWidth_plain]
    exact ⟨⟨rfl, rfl⟩, rfl⟩

theorem unspliced_append (a b : List Bool) : unspliced (a ++ b) = unspliced a ++ unspliced b :=
  List.map_append ..

theorem feed_mfmCode (last : Bool) (items : List (BitVec 16)) :
    feed mfmCode last items =
      ((feed mfmCells last items).1, unspliced (feed mfmCells last items).2) := by
  induction items generalizing last with
  | nil => rfl
  | cons v rest ih =>
    rw [feed, feed, ih]
    rw [unspliced_append]
    rfl

/-- From there on the reader reads every byte. -/
theorem inStep_bytes {crc : BitVec 16} (step : InStep s crc) (last : Bool)
    (items : List (BitVec 16)) :
    InStep (feed readMfm s (unspliced (feed mfmCells last items).2)).1 (feed readByte crc items).1 ∧
      (feed readMfm s (unspliced (feed mfmCells last items).2)).2 =
        (feed readByte crc items).2 := by
  have both := feed_feed (R := fun _ => InStep) (fun t s r x step => inStep_byte step t x)
    (t := last) step items
  rwa [feed_mfmCode] at both

end SonyDrive

end Pom68k.Floppy

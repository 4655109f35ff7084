import Pom68k.Foundation.Scan
import Mathlib.Data.BitVec

/-! # The adaptive Huffman decoder of DART archives

A chunk of an archive is a bit string. Its symbols are read with a tree that changes with
every symbol: the positions of the tree are kept in the order of their frequencies, so that
a position whose frequency grows first changes places with the last one of its frequency.
-/

namespace Pom68k.Dart

open Foundation

abbrev Byte := BitVec 8

def kSymbols : Nat := 314

def kNodes : Nat := 627

def kRoot : Nat := 626

/-- The value behind the last frequency, where every search stops. -/
def kSentinel : Nat := 0xFFFF

/-- The tables of the tree. The two children of a position stand next to each other; a
child that is a symbol has a number from `kNodes` on. -/
structure Tree where
  frequency : Table (kNodes + 1) Nat
  parent : Table (kNodes + kSymbols) Nat
  child : Table kNodes Nat

namespace Tree

/-- The search for the last position whose frequency is below a weight. -/
def seek (t : Tree) (weight : Nat) : Nat → Nat → Scan Nat
  | 0, _ => .error .endless
  | fuel + 1, other => do
      let next ← t.frequency.read (other + 1)
      if next < weight then seek t weight fuel (other + 1) else pure other

/-- What stands below a position is told its new place. -/
def adopt (t : Tree) (a place : Nat) : Scan Tree := do
  let parent ← t.parent.write a place
  if a < kNodes then
    let parent ← parent.write (a + 1) place
    pure { t with parent := parent }
  else pure { t with parent := parent }

/-- Two positions change places, the first one with its new weight. -/
def exchange (t : Tree) (node other weight : Nat) : Scan Tree := do
  let frequency ← t.frequency.write node (← t.frequency.read other)
  let frequency ← frequency.write other weight
  let a ← t.child.read node
  let b ← t.child.read other
  let t := { t with frequency := frequency }
  let t ← t.adopt a other
  let t ← t.adopt b node
  let child ← t.child.write other a
  let child ← child.write node b
  pure { t with child := child }

/-- One position of the way to the root: its frequency grows by one, and it takes the place
it then belongs to. -/
def grow (t : Tree) (node : Nat) : Scan (Tree × Nat) := do
  let weight := (← t.frequency.read node) + 1
  let t := { t with frequency := ← t.frequency.write node weight }
  if (← t.frequency.read (node + 1)) < weight then
    let other ← t.seek weight (kNodes + 1) (node + 1)
    pure (← t.exchange node other weight, other)
  else pure (t, node)

/-- The way from a position to the root. -/
def climb : Nat → Tree → Nat → Scan Tree
  | 0, _, _ => .error .endless
  | fuel + 1, t, node => do
      let (t, node) ← t.grow node
      let up ← t.parent.read node
      if up = 0 then pure t else climb fuel t up

/-- `DartLzh::update`. -/
def update (t : Tree) (symbol : Nat) : Scan Tree := do
  climb (kNodes + 1) t (← t.parent.read (symbol + kNodes))

/-- Tables of zeros. -/
def zero : Tree := ⟨⟨fun _ => 0⟩, ⟨fun _ => 0⟩, ⟨fun _ => 0⟩⟩

/-- A symbol at a position of its own. -/
def addSymbol (t : Tree) (i : Nat) : Scan Tree := do
  let frequency ← t.frequency.write i 1
  let child ← t.child.write i (i + kNodes)
  let parent ← t.parent.write (i + kNodes) i
  pure ⟨frequency, parent, child⟩

/-- A position above a pair, the pairs taken in their order. -/
def addPair (t : Tree) (k : Nat) : Scan Tree := do
  let left ← t.frequency.read (2 * k)
  let right ← t.frequency.read (2 * k + 1)
  let frequency ← t.frequency.write (kSymbols + k) (left + right)
  let child ← t.child.write (kSymbols + k) (2 * k)
  let parent ← t.parent.write (2 * k + 1) (kSymbols + k)
  let parent ← parent.write (2 * k) (kSymbols + k)
  pure ⟨frequency, parent, child⟩

/-- The constructor: the symbols in a row, behind them the positions above the pairs, and
the sentinel. -/
def build : Scan Tree := do
  let t ← (List.range kSymbols).foldlM addSymbol zero
  let t ← (List.range (kRoot + 1 - kSymbols)).foldlM addPair t
  let frequency ← t.frequency.write kNodes kSentinel
  pure { t with frequency := frequency }

end Tree

/-! ## The bit string -/

/-- The decoder of a chunk: the tree, and the position in the input. -/
structure Lzh where
  tree : Tree
  input : List Byte
  position : Nat

namespace Lzh

/-- `DartLzh::bit`: the next bit, the high one of a byte first. At the end of the input the
chunk is refused. -/
def bit (z : Lzh) : Scan (Nat × Lzh) := do
  Scan.check (z.position / 8 < z.input.length)
  let byte ← Scan.read z.input (z.position / 8)
  pure ((byte >>> (7 - z.position % 8) &&& 1#8).toNat, { z with position := z.position + 1 })

/-- The way from a position down to a symbol. -/
def descend : Nat → Lzh → Nat → Scan (Nat × Lzh)
  | 0, _, _ => .error .endless
  | fuel + 1, z, node =>
    if node < kNodes then do
      let (value, z) ← z.bit
      descend fuel z (← z.tree.child.read (node + value))
    else pure (node - kNodes, z)

/-- `DartLzh::symbol`. -/
def symbol (z : Lzh) : Scan (Nat × Lzh) := do
  let (value, z) ← descend (kNodes + 1) z (← z.tree.child.read kRoot)
  let tree ← z.tree.update value
  pure (value, { z with tree := tree })

/-- The low bits of a distance. -/
def lowBits : Nat → Nat → Lzh → Scan (Nat × Lzh)
  | 0, low, z => pure (low, z)
  | n + 1, low, z => do
      let (next, z) ← z.bit
      lowBits n (low * 2 + next) z

/-- The canonical code of the high bits, by the number of codes of each length. -/
def highBits : List Nat → Nat → Nat → Nat → Lzh → Scan (Nat × Lzh)
  | [], _, _, _, _ => Scan.refuse
  | count :: counts, code, first, base, z => do
      let (value, z) ← z.bit
      let code := code * 2 + value
      if first ≤ code ∧ code < first + count then
        let (low, z) ← lowBits 6 0 z
        pure ((base + code - first) * 64 + low, z)
      else highBits counts code ((first + count) * 2) (base + count) z

/-- `DartLzh::distance`. -/
def distance (z : Lzh) : Scan (Nat × Lzh) := highBits [0, 0, 1, 3, 8, 12, 24, 16] 0 0 0 z

end Lzh

/-! ## The chunk -/

/-- The size of a chunk. -/
def kChunk : Nat := 20960

/-- The decoder with what it has written, and its window on it. -/
structure Expander where
  lzh : Lzh
  window : Table 4096 Byte
  head : Nat
  written : List Byte

namespace Expander

/-- A byte written to the chunk and to the window. The chunk has room for so many. -/
def emit (e : Expander) (byte : Byte) : Scan Expander := do
  if kChunk ≤ e.written.length then .error .outside
  let window ← e.window.write e.head byte
  pure { e with
    window := window
    head := (e.head + 1) % 4096
    written := e.written ++ [byte] }

/-- A match copied out of the window, up to the end of the chunk. -/
def copy : Nat → Nat → Expander → Scan Expander
  | 0, _, e => pure e
  | n + 1, source, e =>
    if e.written.length < kChunk then do
      let byte ← e.window.read source
      copy n ((source + 1) % 4096) (← e.emit byte)
    else pure e

/-- One turn of the loop of `expand`: a symbol is a byte, or the length of a match. -/
def turn (e : Expander) : Scan Expander := do
  let (value, lzh) ← e.lzh.symbol
  let e := { e with lzh := lzh }
  if value < 256 then e.emit (BitVec.ofNat 8 value)
  else
    let (offset, lzh) ← e.lzh.distance
    let e := { e with lzh := lzh }
    copy (value - 253) ((e.head + 2 ^ 64 - offset - 1) % 4096) e

/-- Turns until the chunk is full; with the number of turns that are left at most. -/
def turns : Nat → Expander → Scan Expander
  | 0, e => if e.written.length < kChunk then .error .endless else pure e
  | n + 1, e => if e.written.length < kChunk then do turns n (← e.turn) else pure e

/-- The decoder of an input, before its first symbol. -/
def start (input : List Byte) : Scan Expander := do
  pure ⟨⟨← Tree.build, input, 0⟩, ⟨fun _ => 0⟩, 4096 - 60, []⟩

/-- The decoder of an input after some turns, as far as the chunk takes them. -/
def after (input : List Byte) : Nat → Scan Expander
  | 0 => start input
  | n + 1 => do
      let e ← after input n
      if e.written.length < kChunk then e.turn else pure e

end Expander

/-- `DartLzh::expand`, for an output of some size. -/
def expand (input : List Byte) (size : Nat) : Scan (List Byte) := do
  Scan.check (size = kChunk)
  let e ← Expander.turns kChunk (← Expander.start input)
  pure e.written

end Pom68k.Dart

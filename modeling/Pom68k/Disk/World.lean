import Pom68k.Disk.Timeline
import Pom68k.Foundation.Runs

/-! # An image and its timeline over time

The owner of an image logs every write with the timeline before it carries it out,
saves and restores states, and may end at any point: another process then attaches
a new timeline to the image and the journal file that are left.
-/

namespace Pom68k.Disk

open Foundation

variable {g : Geometry}

/-- An image with its timeline. `path` is where the journal lies when the medium is
attached with write-back. -/
structure World (g : Geometry) where
  path : String
  name : String
  image : Image g
  timeline : Timeline g

/-- What can happen to an image. Journal writes carry whether they failed, and after
how many bytes. -/
inductive Op (g : Geometry) where
  /-- The image is attached, in a new process or again. -/
  | attach (writeBack : Bool) (host : JournalHost)
  | setJournalCap (cap : Nat)
  | write (lba : Fin g.blocks) (next : Block g.blockSize) (landed : Option Nat)
  /-- The image is changed behind the timeline's back, which is told so. -/
  | poke (image : Image g)
  /-- The digest is asked for, as an archive other than a writer does. -/
  | digest
  | save (landed : Option Nat)
  | restore (r : Reader) (landed : Fin g.blocks → Option Nat)
  /-- The process ends; a record being appended leaves the bytes `torn`. -/
  | quit (torn : List Byte)
  /-- The process ends inside a write, after the timeline logged it. -/
  | quitInWrite (lba : Fin g.blocks) (next left : Block g.blockSize) (landed : Option Nat)
  /-- Somebody else replaces or removes the journal file. -/
  | tamper (file : Option (List Byte))

namespace World

/-- A medium no process has attached yet. -/
def initial (path name : String) (image : Image g) (file : Option (List Byte)) : World g :=
  { path, name, image, timeline := { file := file } }

/-- A write through the owner: first the log, then the image. -/
def write (w : World g) (lba : Fin g.blocks) (next : Block g.blockSize) (landed : Option Nat) :
    World g :=
  { w with
    timeline := w.timeline.willWrite lba (w.image lba) next landed
    image := Function.update w.image lba next }

/-- The plan of a restore, carried out through the write path. -/
def applyPlan (w : World g) (plan : BlockMap g) (landed : Fin g.blocks → Option Nat) : World g :=
  plan.foldl (fun w b => w.write b.1 b.2 (landed b.1)) w

/-- The restore of a disk: load, write the plan, and commit unless the state was
refused. -/
def restore (w : World g) (r : Reader) (landed : Fin g.blocks → Option Nat) : World g :=
  let loaded := w.timeline.load w.image r
  let w := { w with timeline := loaded.timeline }.applyPlan loaded.plan landed
  if loaded.reader.ok then { w with timeline := w.timeline.commitLoad w.image } else w

def step (w : World g) : Op g → World g
  | .attach writeBack host =>
    { w with
      timeline := w.timeline.attach w.image (if writeBack then w.path else "") w.name host }
  | .setJournalCap cap => { w with timeline := { w.timeline with journalCap := cap } }
  | .write lba next landed => w.write lba next landed
  | .poke image => { w with image := image, timeline := w.timeline.imageTouched }
  | .digest => { w with timeline := w.timeline.freshen w.image }
  | .save landed => { w with timeline := w.timeline.save w.image landed }
  | .restore r landed => w.restore r landed
  | .quit torn => { w with timeline := w.timeline.ended torn }
  | .quitInWrite lba next left landed =>
    { w with
      image := Function.update w.image lba left
      timeline := (w.timeline.willWrite lba (w.image lba) next landed).ended [] }
  | .tamper file => { w with timeline := { w.timeline with file := file } }

end World

end Pom68k.Disk

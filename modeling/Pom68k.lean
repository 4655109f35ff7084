import Pom68k.Jit.DispatchRefinement
import Pom68k.Jit.BlocksCurrent
import Pom68k.Jit.WipeList
import Pom68k.Disk.Chunk
import Pom68k.Disk.Cursor
import Pom68k.Disk.JournalUpkeep
import Pom68k.Disk.CrossProcess
import Pom68k.Disk.Mirror
import Pom68k.Disk.AtaWrites
import Pom68k.Disk.ScsiReadOnly
import Pom68k.MacIp.Holes
import Pom68k.MacIp.Reacknowledge
import Pom68k.Floppy.FileImage
import Pom68k.Floppy.TrackFrame
import Pom68k.Floppy.Progress
import Pom68k.Atalk.ExactlyOnce
import Pom68k.Atalk.Completion
import Pom68k.Afp.ForkObject
import Pom68k.Afp.ReadBack
import Pom68k.Afp.Listing
import Pom68k.Pap.Jobs
import Pom68k.Scsi.Snapshot
import Pom68k.Scsi.Completion
import Pom68k.Hfs.Allocate

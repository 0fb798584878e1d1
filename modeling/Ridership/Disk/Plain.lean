import Ridership.Failure
import Ridership.Gzip.Member

/-!
# Files that may be compressed

A file is read as it is, or inflated when its first bytes mark it as gzip. Its name does not
matter.
-/

namespace Ridership.Disk

/-- The content of the file at a path, inflated if it is a gzip file. -/
def readPlain (d : Disk) (path : String) : Except ReadFault Bytes := do
  let bytes ← (d.read path).mapError .disk
  (Gzip.plain bytes).mapError .gzip

end Ridership.Disk

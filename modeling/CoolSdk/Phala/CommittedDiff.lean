import CoolSdk.Phala.Evidence

/-!
# What a committed diff determines

Every rendered line starts with a mark and holds no line break, so the text of a diff reads back
as its lines, and those say what both texts were.
-/

namespace CoolSdk

/-! ## Lines -/

/-- The character that marks a line of a kind. -/
def DiffKind.mark : DiffKind → Char
  | .added => '+'
  | .removed => '-'
  | .context => ' '

variable {H : Host}

end CoolSdk

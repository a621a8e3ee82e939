import JlrModel.Model.Artifact

-- The class of a file, from its first bytes, its permissions and its name.

def ELF_MAGIC : Bytes := [0x7f, 0x45, 0x4c, 0x46]
def ET_EXEC : Nat := 2
def ET_DYN  : Nat := 3

-- The type of an ELF file, in the byte order that the file itself declares.
def elfType (head : Bytes) : Option Nat :=
  if head.length < 18 ∨ head.take 4 ≠ ELF_MAGIC then
    none
  else
    let field := (head.drop 16).take 2
    match head.getD 5 0 with
    | 1 => some (Bytes.toNat field.reverse)
    | 2 => some (Bytes.toNat field)
    | _ => none

-- The last component of a path as text, with replacements where it is not UTF-8.
structure FileName where
  lossy : String
  valid : Bool

def FileName.toStr (n : FileName) : Option String :=
  if n.valid then n.lossy else none

def nameOf (fileName : Option FileName) : String :=
  (fileName.bind FileName.toStr).getD ""

namespace ArtifactClass

-- Whether a mode has an execute bit.
def executable (mode : UInt32) : Bool :=
  mode &&& 0o111 ≠ 0

def ofElf (type : Nat) (name : String) (mode : UInt32) : ArtifactClass :=
  if Text.endsWith name ".ko" then .module
  else if type = ET_EXEC then .exe
  else if type = ET_DYN then
    if executable mode ∧ ¬ Text.contains name ".so" then .exe else .lib
  else .other

def ofName (head : Bytes) (name : String) (mode : UInt32) : ArtifactClass :=
  let ends := Text.endsWith name
  if ends ".ko" ∨ ends ".ko.xz" ∨ ends ".ko.zst" ∨ ends ".ko.gz" then .module
  else if head.take 2 = [0x23, 0x21] then .script
  else if ends ".service" ∨ ends ".timer" ∨ ends ".socket" then .service
  else if Text.startsWith name "vmlinuz" then .kernel
  else if Text.startsWith name "initrd" ∨ Text.startsWith name "initramfs" then .initrd
  else if ends ".efi" ∨ name = "grub.cfg" then .boot
  else if ends ".deb" ∨ ends ".rpm" then .package
  else if ends ".AppImage" ∨ ends ".flatpak" then .container
  else if executable mode then .script
  else .other

end ArtifactClass

def classify (head : Bytes) (fileName : Option FileName) (mode : UInt32) : ArtifactClass :=
  let name := nameOf fileName
  match elfType head with
  | some type => .ofElf type name mode
  | none      => .ofName head name mode

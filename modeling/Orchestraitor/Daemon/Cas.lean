import Orchestraitor.Base.Pool
import Orchestraitor.Base.Files
import Orchestraitor.Audit.Event

/-!
# The content-addressed store (`store/cas.rs`)

`storeBytes` writes to a temporary file named after the digest and renames it into place.  Its calls to the
file system are single steps, so stores that run at once can share the temporary file.
-/

namespace Daemon
open Base Base.Calls List

abbrev Bytes := List UInt8
abbrev Digest := List Char

/-! ## digests and paths -/

abbrev Sha256 := Bytes → { l : Bytes // l.length = 32 }

def hexDigit (n : Nat) : Char := if n < 10 then Char.ofNat (48 + n) else Char.ofNat (87 + n)

def hexEncode (bytes : Bytes) : Digest :=
  bytes.flatMap fun b => [hexDigit (b.toNat / 16), hexDigit (b.toNat % 16)]

def digestOf (sha256 : Sha256) (bytes : Bytes) : Digest := hexEncode (sha256 bytes).1

def isAsciiHexdigit (c : Char) : Bool :=
  ('0' ≤ c && c ≤ '9') || ('a' ≤ c && c ≤ 'f') || ('A' ≤ c && c ≤ 'F')

inductive StoreError where
  | sqlite (cause : String)
  | io (error : FileError)
  | json (cause : String)
  | event (error : Audit.EventError)
  | invalidDigest (digest : Digest)
  | digestMismatch (expected actual : Digest)
  | integerRange
  deriving DecidableEq

def pathForDigest (root : Path) (digest : Digest) : Except StoreError Path :=
  if digest.length ≠ 64 || !digest.all isAsciiHexdigit then .error (.invalidDigest digest)
  else .ok (root ++ ["objects".toList, digest.take 2, digest])

/-! ## storing and loading -/

inductive FileQuery where
  | isFile (path : Path)
  | createDirAll (path : Path)
  | openTruncate (caller : Nat) (path : Path)
  | write (file : Nat) (bytes : Bytes)
  | rename (source target : Path)
  | removeFile (path : Path)
  | read (path : Path)

@[reducible] def FileAnswer : FileQuery → Type
  | .isFile _ => Bool
  | .createDirAll _ => Except FileError Unit
  | .openTruncate _ _ => Except FileError Nat
  | .write _ _ => Except FileError Unit
  | .rename _ _ => Except FileError Unit
  | .removeFile _ => Except FileError Unit
  | .read _ => Except FileError Bytes

def removeTemp (temp : Path) : Calls FileAnswer (Except StoreError Unit) :=
  .call (.removeFile temp) fun
  | .ok () => .ret (.ok ())
  | .error .notFound => .ret (.ok ())
  | .error error => .ret (.error (.io error))

def tempName (digest : Digest) : List Char := '.' :: digest ++ ".tmp".toList

def afterRename (temp : Path) (digest : Digest) :
    Except FileError Unit → Calls FileAnswer (Except StoreError Digest)
  | .ok () => .ret (.ok digest)
  | .error .alreadyExists => removeTemp temp >>= fun
    | .ok () => .ret (.ok digest)
    | .error error => .ret (.error error)
  | .error error => .ret (.error (.io error))

def installBytes (caller : Nat) (path temp : Path) (digest : Digest) (bytes : Bytes) :
    Calls FileAnswer (Except StoreError Digest) :=
  .call (.openTruncate caller temp) fun
  | .error error => .ret (.error (.io error))
  | .ok file => .call (.write file bytes) fun
    | .error error => .ret (.error (.io error))
    | .ok () => .call (.rename temp path) (afterRename temp digest)

def storeAt (caller : Nat) (path shard : Path) (digest : Digest) (bytes : Bytes) :
    Calls FileAnswer (Except StoreError Digest) :=
  .call (.isFile path) fun
  | true => .ret (.ok digest)
  | false => .call (.createDirAll shard) fun
    | .error error => .ret (.error (.io error))
    | .ok () => installBytes caller path (shard ++ [tempName digest]) digest bytes

def storeBytes (sha256 : Sha256) (root : Path) (caller : Nat) (bytes : Bytes) :
    Calls FileAnswer (Except StoreError Digest) :=
  match pathForDigest root (digestOf sha256 bytes) with
  | .error error => .ret (.error error)
  | .ok path => storeAt caller path path.dropLast (digestOf sha256 bytes) bytes

def loadBytes (sha256 : Sha256) (root : Path) (digest : Digest) :
    Calls FileAnswer (Except StoreError Bytes) :=
  match pathForDigest root digest with
  | .error error => .ret (.error error)
  | .ok path => .call (.read path) fun
    | .error error => .ret (.error (.io error))
    | .ok bytes =>
      if digestOf sha256 bytes ≠ digest then
        .ret (.error (.digestMismatch digest (digestOf sha256 bytes)))
      else .ret (.ok bytes)

/-! ## the file system -/

/-- the files, and who opened each name last -/
structure Disk where
  files : Files UInt8
  opener : Path → Option Nat

def Disk.empty : Disk := { files := .empty, opener := fun _ => none }

namespace Disk

def opened (d : Disk) (caller : Nat) (path : Path) (files : Files UInt8) : Disk :=
  { files, opener := Function.update d.opener path (some caller) }

def afterOpen (d : Disk) (caller : Nat) (path : Path) :
    Except FileError (Nat × Files UInt8) → Except FileError Nat × Disk
  | .ok r => (.ok r.1, d.opened caller path r.2)
  | .error error => (.error error, d)

def afterChange (d : Disk) : Except FileError (Files UInt8) → Except FileError Unit × Disk
  | .ok files => (.ok (), { d with files })
  | .error error => (.error error, d)

def serve (d : Disk) : (q : FileQuery) → FileAnswer q × Disk
  | .isFile path => (d.files.isFile path, d)
  | .createDirAll path => (.ok (), { d with files := d.files.createDirAll path })
  | .openTruncate caller path => d.afterOpen caller path (d.files.openTruncate path)
  | .write file bytes => (.ok (), { d with files := d.files.write file bytes })
  | .rename source target => d.afterChange (d.files.rename source target)
  | .removeFile path => d.afterChange (d.files.removeFile path)
  | .read path => (d.files.read path, d)

end Disk

/-! ## facts about paths -/

section paths
variable (sha256 : Sha256) (root : Path)

theorem hexDigit_ascii (n : Nat) (h : n < 16) : isAsciiHexdigit (hexDigit n) = true := by
  have hall : ∀ n : Fin 16, isAsciiHexdigit (hexDigit n) = true := by decide
  exact hall ⟨n, h⟩

theorem hexEncode_length (bytes : Bytes) : (hexEncode bytes).length = 2 * bytes.length := by
  induction bytes with
  | nil => rfl
  | cons _ _ ih =>
    rw [hexEncode, flatMap_cons, length_append]
    rw [hexEncode] at ih
    simp only [length_cons, length_nil]
    omega

theorem hexEncode_ascii (bytes : Bytes) : (hexEncode bytes).all isAsciiHexdigit = true := by
  rw [all_eq_true]
  intro c hc
  obtain ⟨b, _, hc⟩ := mem_flatMap.mp hc
  have hb : b.toNat < 256 := b.toNat_lt
  rcases mem_cons.mp hc with rfl | hc
  · exact hexDigit_ascii _ (by omega)
  · rw [mem_singleton.mp hc]
    exact hexDigit_ascii _ (by omega)

def objectPath (digest : Digest) : Path := root ++ ["objects".toList, digest.take 2, digest]

def shardPath (digest : Digest) : Path := root ++ ["objects".toList, digest.take 2]

def tempPath (digest : Digest) : Path := shardPath root digest ++ [tempName digest]

variable {root}

theorem objectPath_dropLast (digest : Digest) :
    (objectPath root digest).dropLast = shardPath root digest := by
  rw [objectPath, dropLast_append_of_ne_nil (by simp)]
  rfl

theorem pathForDigest_ok {digest : Digest} {path : Path} (h : pathForDigest root digest = .ok path) :
    digest.all isAsciiHexdigit = true ∧ path = objectPath root digest := by
  unfold pathForDigest at h
  split at h
  · cases h
  · rename_i hvalid
    simp only [Bool.or_eq_true, not_or, Bool.not_eq_true', Bool.not_eq_false] at hvalid
    exact ⟨hvalid.2, (Except.ok.inj h).symm⟩

theorem pathForDigest_digestOf (bytes : Bytes) :
    pathForDigest root (digestOf sha256 bytes) = .ok (objectPath root (digestOf sha256 bytes)) := by
  have hlen : (digestOf sha256 bytes).length = 64 := by
    rw [digestOf, hexEncode_length, (sha256 bytes).2]
  have hall : (digestOf sha256 bytes).all isAsciiHexdigit = true := hexEncode_ascii _
  rw [pathForDigest, hlen, hall]
  rfl

theorem objectPath_inj {d d' : Digest} (h : objectPath root d = objectPath root d') : d = d' := by
  have := append_cancel_left h
  simp only [cons.injEq, and_true, true_and] at this
  exact this.2

theorem tempPath_ne_objectPath {d d' : Digest} (h : d'.all isAsciiHexdigit = true) :
    tempPath root d ≠ objectPath root d' := by
  intro heq
  have hlast := congrArg getLast? heq
  simp only [tempPath, objectPath, getLast?_append, getLast?_singleton, Option.some_or,
    getLast?_cons_cons, Option.some.injEq] at hlast
  subst hlast
  rw [tempName] at h
  exact absurd h (by simp [isAsciiHexdigit])

end paths

end Daemon

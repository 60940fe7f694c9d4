import Hotpatch.Digest.Blake2
import Hotpatch.Digest.Md5
import Hotpatch.Digest.Ripemd
import Hotpatch.Digest.Sha1
import Hotpatch.Digest.Sha3
import Hotpatch.Digest.Sm3

/-!
Digests by name. Each has standard names, in which case doesn't matter, most a number in dots, and
some a short name of their own, whose letters have to be as they stand here. Main definitions:
`Digest.named?`, `Digest.Kind.hash?`.
-/

namespace Hotpatch.Digest

inductive Kind where
  | md5 | sha1 | sha224 | sha256 | sha384 | sha512 | sha512To224 | sha512To256
  /-- SHA-3 of so many bytes. -/
  | sha3 (size : Nat)
  /-- A digest of as many bytes as one likes. -/
  | openEnded
  | blake2b | blake2s | ripemd160 | sm3
  /-- MD5 and SHA-1, one after the other. -/
  | md5Sha1
  /-- A digest of no bytes. -/
  | nothing
  deriving DecidableEq, Repr

def standard? : String → Option Kind
  | "md5" | "ssl3-md5" | "1.2.840.113549.2.5" => some .md5
  | "sha1" | "sha-1" | "ssl3-sha1" | "1.3.14.3.2.26" => some .sha1
  | "sha224" | "sha-224" | "sha2-224" | "2.16.840.1.101.3.4.2.4" => some .sha224
  | "sha256" | "sha-256" | "sha2-256" | "2.16.840.1.101.3.4.2.1" => some .sha256
  | "sha384" | "sha-384" | "sha2-384" | "2.16.840.1.101.3.4.2.2" => some .sha384
  | "sha512" | "sha-512" | "sha2-512" | "2.16.840.1.101.3.4.2.3" => some .sha512
  | "sha512-224" | "sha-512/224" | "sha2-512/224" | "2.16.840.1.101.3.4.2.5" => some .sha512To224
  | "sha512-256" | "sha-512/256" | "sha2-512/256" | "2.16.840.1.101.3.4.2.6" => some .sha512To256
  | "sha3-224" | "2.16.840.1.101.3.4.2.7" => some (.sha3 28)
  | "sha3-256" | "2.16.840.1.101.3.4.2.8" => some (.sha3 32)
  | "sha3-384" | "2.16.840.1.101.3.4.2.9" => some (.sha3 48)
  | "sha3-512" | "2.16.840.1.101.3.4.2.10" => some (.sha3 64)
  | "shake128" | "shake-128" | "2.16.840.1.101.3.4.2.11"
  | "shake256" | "shake-256" | "2.16.840.1.101.3.4.2.12" => some .openEnded
  | "keccak-kmac-128" | "keccak-kmac128" | "keccak-kmac-256" | "keccak-kmac256" => some .openEnded
  | "blake2b512" | "blake2b-512" | "1.3.6.1.4.1.1722.12.2.1.16" => some .blake2b
  | "blake2s256" | "blake2s-256" | "1.3.6.1.4.1.1722.12.2.2.8" => some .blake2s
  | "ripemd160" | "ripemd-160" | "ripemd" | "rmd160" | "1.3.36.3.2.1" => some .ripemd160
  | "sm3" | "1.2.156.10197.1.401" => some .sm3
  | "md5-sha1" => some .md5Sha1
  | "null" => some .nothing
  | _ => none

def short? : String → Option Kind
  | "sha512_224" | "SHA512_224" => some .sha512To224
  | "sha512_256" | "SHA512_256" => some .sha512To256
  | "sha3_224" => some (.sha3 28)
  | "sha3_256" => some (.sha3 32)
  | "sha3_384" => some (.sha3 48)
  | "sha3_512" => some (.sha3 64)
  | "shake_128" | "shake_256" => some .openEnded
  | "blake2b" => some .blake2b
  | "blake2s" => some .blake2s
  | _ => none

def named? (name : String) : Option Kind :=
  (short? name).or (standard? (String.ofList (name.toList.map Char.toLower)))

/-- The digest in hexadecimal; there is none where its size is open. -/
def Kind.hash? (k : Kind) (bs : Bytes) : Option String :=
  match k with
  | .md5 => some (Md5.hash bs)
  | .sha1 => some (Sha1.hash bs)
  | .sha224 => some (Sha2.sha224 bs)
  | .sha256 => some (Sha2.sha256 bs)
  | .sha384 => some (Sha2.sha384 bs)
  | .sha512 => some (Sha2.sha512 bs)
  | .sha512To224 => some (Sha2.sha512To224 bs)
  | .sha512To256 => some (Sha2.sha512To256 bs)
  | .sha3 size => some (Sha3.hash size bs)
  | .openEnded => none
  | .blake2b => some (Blake2.hash Blake2.wide bs)
  | .blake2s => some (Blake2.hash Blake2.narrow bs)
  | .ripemd160 => some (Ripemd.hash bs)
  | .sm3 => some (Sm3.hash bs)
  | .md5Sha1 => some (Md5.hash bs ++ Sha1.hash bs)
  | .nothing => some ""

end Hotpatch.Digest

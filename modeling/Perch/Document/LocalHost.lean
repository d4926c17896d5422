/-
A host in which the libraries a compiler meets are the simplest that do what
they document: the JSON reader itself for the lexer, lower-case hex, strkeys
spelled out, and verifiers whose keys are canonical as they stand.
-/

import Perch.Document.Compiler
import Perch.Machine.Sha256

namespace Perch.Document

open Machine

def hexDigit (nibble : UInt8) : Char :=
  Char.ofNat (if nibble < 10 then nibble.toNat + 48 else nibble.toNat + 87)

def localHexEncode (bytes : Bytes) : String :=
  String.ofList (bytes.flatMap fun byte => [hexDigit (byte / 16), hexDigit (byte % 16)])

/-- The strkey version bytes of `G...` accounts and `C...` contracts. -/
def accountVersion : UInt8 := 48

def contractVersion : UInt8 := 16

def localAddressFromStr (text : String) : Option Address :=
  match Ir.base32Bytes 0 0 (Ir.utf8 text) with
  | [] => none
  | version :: payload =>
      if size : (payload.take 32).length = 32 then
        if Ir.isAddressShape text = true ∧ version = accountVersion then
          some (.account ⟨payload.take 32, size⟩)
        else if Ir.isAddressShape text = true ∧ version = contractVersion then
          some (.contract ⟨payload.take 32, size⟩)
        else none
      else none

def base32Letter (value : Nat) : UInt8 :=
  UInt8.ofNat (if value < 26 then value + 65 else value - 26 + 50)

/-- Five bits a letter, most significant first. -/
def base32Letters (count : Nat) (bits : Nat) : Bytes :=
  (List.range count).map fun i => base32Letter (bits / 32 ^ (count - 1 - i) % 32)

def strkey (version : UInt8) (payload : Bytes) : SString :=
  let data := version :: payload
  let checksum := Ir.crc16 data
  base32Letters 56 ((data ++ [(checksum &&& 255).toUInt8, (checksum >>> 8).toUInt8]).foldl
    (fun bits byte => bits * 256 + byte.toNat) 0)

def localAddressToString : Address → SString
  | .account key => strkey accountVersion key.bytes
  | .contract id => strkey contractVersion id.bytes
  | .other _ => []

def localSha256 : Sha256 := fun message =>
  ⟨Machine.Sha256.hash message, Machine.Sha256.length_hash message⟩

def localHost (network : String) : CompilerHost where
  sha256 := localSha256
  networkId := localSha256 (Ir.utf8 network)
  lexer := Ir.jsonReader
  hexDecode text := hexPairs (Ir.utf8 text)
  hexEncode := localHexEncode
  addressFromStr := localAddressFromStr
  addressToString := localAddressToString
  canonicalizeKeys _ keys := some keys

end Perch.Document

import Bfx.Base64Text
import Bfx.ScriptText
import Bfx.TokenScript

/-!
Encrypted metadata: the envelope that `BFXTScript::DecryptMetadata` opens, the message inside it
that `EncryptMessageOutput::Deserialize` cuts into fields, and its decryption chunk by chunk.
The JSON reader, the elliptic curve operations and libsodium are parameters.
-/

namespace Bfx.MessageDecryption

open Base64Text CallOutcome HexText ScriptText TokenScript

/-- What a call can do instead of returning. Only `thrown` is defined behaviour. -/
inductive DecryptionFault where
  | thrown (what : String)
  | outOfBounds
  | intOverflow
  | assertFailed
  | stillRunning
  deriving DecidableEq, Repr

abbrev Decryption (α : Type) := Except DecryptionFault α

def refuse {α : Type} (what : String) : Decryption α := .error (.thrown what)

def refuseIf (p : Prop) [Decidable p] (what : String) : Decryption Unit :=
  if p then refuse what else .ok ()

/-- A call of the rest of the wallet. -/
def fromOutcome {α : Type} : Outcome α → Decryption α
  | .ok a => .ok a
  | .error (.thrown what) => refuse what
  | .error (.outOfBounds _) => .error .outOfBounds

/-- A call of a library, which returns or throws. -/
def fromLibrary {α : Type} : Except String α → Decryption α
  | .ok a => .ok a
  | .error what => refuse what

/-- The elements `[first, last)` of a vector, as `std::copy` and `memcpy` read them. -/
def readRange (data : Bytes) (first last : Nat) : Decryption Bytes :=
  if last ≤ data.length then .ok ((data.take last).drop first) else .error .outOfBounds

/-- Addition of two values of type `int`. -/
def addInt (a b : Int) : Decryption Int :=
  if -2 ^ 31 ≤ a + b ∧ a + b < 2 ^ 31 then .ok (a + b) else .error .intOverflow

/-- `json_spirit::Value`. No number with a fraction is read here. -/
inductive JsonValue where
  | obj (pairs : List (String × JsonValue))
  | array (values : List JsonValue)
  | str (text : String)
  | bool (value : Bool)
  | int (n : Int)
  | real
  | null

/-- The place of the value's type in `Value_type`. -/
def JsonValue.typeIndex : JsonValue → Nat
  | .obj _ => 0
  | .array _ => 1
  | .str _ => 2
  | .bool _ => 3
  | .int _ => 4
  | .real => 5
  | .null => 6

abbrev JsonObject := List (String × JsonValue)

/-- `json_spirit::read_or_throw`: an exception has a text if it is a `std::exception`. -/
abbrev JsonReader := String → Except (Option String) JsonValue

def findValue (object : JsonObject) (name : String) : JsonValue :=
  (object.lookup name).getD .null

/-- `GetStrValue` and `GetStrValue_CHL`, which have the same body. -/
def getStrValue (object : JsonObject) (name : String) : Decryption String :=
  match findValue object name with
  | .null => refuse ("Could not find json object: " ++ name)
  | .str text => .ok text
  | v => refuse ("For object " ++ name ++
      " the expected type is string, but found type with index " ++ toString v.typeIndex)

/-- `GetIntValue` and `GetIntValue_CHL`; `get_int` keeps the low 32 bits. -/
def getIntValue (object : JsonObject) (name : String) : Decryption Int :=
  match findValue object name with
  | .null => refuse ("Could not find json object: " ++ name)
  | .int n => .ok (n.bmod (2 ^ 32))
  | v => refuse ("For object " ++ name ++
      " the expected type is int, but found type with index " ++ toString v.typeIndex)

/-- Text read as an object, under the three messages of the caller. -/
def readObject (readOrThrow : JsonReader) (text known unknown other : String) :
    Decryption JsonObject :=
  match readOrThrow text with
  | .error (some what) => refuse (known ++ what)
  | .error none => refuse unknown
  | .ok (.obj object) => .ok object
  | .ok _ => refuse other

def LARGEST_EXPECTED_JSON : Nat := 2 ^ 10

/-- `JsonStringQueue::pushData` into an empty queue: the size of the first text in balanced
braces, if there is one. `rest` is what stands behind the first `charCount` bytes. -/
def pushData (data : Bytes) : Nat → Int → Bytes → Decryption (Option Nat)
  | _, _, [] => .ok none
  | charCount, bracketLevel, c :: rest =>
    if charCount > LARGEST_EXPECTED_JSON then
      refuse ("While attempting to detect json length, huge unparsed json data " ++
        "was found. Max allowed size is: " ++ toString LARGEST_EXPECTED_JSON)
    else if c = 0x7b then pushData data (charCount + 1) (bracketLevel + 1) rest
    else if c = 0x7d then
      if bracketLevel - 1 < 0 then
        refuse ("While attempting to detect json length, an invalid closure " ++
          "was found. Max allowed size is: " ++ rawText (data.take charCount))
      else if bracketLevel - 1 = 0 then .ok (some (charCount + 1))
      else pushData data (charCount + 1) (bracketLevel - 1) rest
    else pushData data (charCount + 1) bracketLevel rest

/-- What `Deserialize` reads from the header, and the header's size. -/
structure MessageHeader where
  size : Nat
  encryptionAlgo : String
  keyRatchetAlgo : String
  authAlgo : String
  cipherPosition : Int
  cipherLength : Int
  authDataPosition : Int
  authDataLength : Int
  ivPosition : Int
  ivLength : Int
  deriving DecidableEq, Repr

structure EncryptMessageOutput where
  cipher : Bytes
  nonce : Bytes
  authData : Bytes
  encryptionAlgo : String
  keyRatchetAlgo : String
  authAlgo : String
  deriving DecidableEq, Repr

/-- `table[key] = value` on a `std::map`. -/
def assign (table : List (Nat × Nat)) (key value : Nat) : List (Nat × Nat) :=
  (key, value) :: table.filter (·.1 ≠ key)

def MessageHeader.dataSizes (header : MessageHeader) : List (Nat × Nat) :=
  assign
    (assign
      (assign [] header.cipherPosition.toNat header.cipherLength.toNat)
      header.authDataPosition.toNat header.authDataLength.toNat)
    header.ivPosition.toNat header.ivLength.toNat

def fieldCount : Nat := 3

/-- The checks of the positions and lengths before anything is cut. -/
def MessageHeader.check (header : MessageHeader) : Decryption Unit := do
  refuseIf (header.cipherPosition < 0) "Negative cipher position in cipher header"
  refuseIf (header.authDataPosition < 0)
    "Negative authentication data position in cipher header"
  refuseIf (header.ivPosition < 0) "Negative IV position in cipher header"
  refuseIf (header.cipherLength ≤ 0) "Zero/Negative cipher length in cipher header"
  refuseIf (header.authDataLength ≤ 0)
    "Zero/Negative authentication data length in cipher header"
  refuseIf (header.ivLength ≤ 0) "Zero/Negative IV length in cipher header"
  refuseIf (header.dataSizes.length ≠ fieldCount)
    ("The number of readable fields is not what is expected: " ++ toString fieldCount)
  refuseIf (∃ i < fieldCount, header.dataSizes.lookup i = none)
    ("Could no t find all required components of the ciphered message " ++
      "in the expected positions")

/-- The fields of the header, in the order in which they are asked for. -/
def parseHeader (size : Nat) (root : JsonObject) : Decryption MessageHeader := do
  let version ← getIntValue root "SerializationVersion"
  refuseIf (version ≠ 0)
    ("Unknown serialization version for ciphered message given with value: " ++ toString version)
  let encryptionAlgo ← getStrValue root "EncAlgo"
  let keyRatchetAlgo ← getStrValue root "AuthKeyRatchetAlgo"
  let authAlgo ← getStrValue root "AuthAlgo"
  let cipherPosition ← getIntValue root "CipherPos"
  let cipherLength ← getIntValue root "CipherLen"
  let authDataPosition ← getIntValue root "AuthDataPos"
  let authDataLength ← getIntValue root "AuthDataLen"
  let ivPosition ← getIntValue root "IVPos"
  let ivLength ← getIntValue root "IVLen"
  .ok { size, encryptionAlgo, keyRatchetAlgo, authAlgo, cipherPosition, cipherLength,
        authDataPosition, authDataLength, ivPosition, ivLength }

/-- `jsonStringQueue.pullDataAndClear().front()`, as the size of the text. -/
def headerSize (data : Bytes) : Decryption Nat := do
  match ← pushData data 0 0 data with
  | none =>
    refuse "Could not pull any index data out of the cipher data. Data is not readable."
  | some size => .ok size

/-- `Deserialize` up to the check of the total size. -/
def readHeader (readOrThrow : JsonReader) (data : Bytes) : Decryption MessageHeader := do
  refuseIf (data = []) "Requested decryption of empty data"
  refuseIf (data.head? ≠ some 0x7b) "Unexpected header while attempting to decrypt data"
  let size ← headerSize data
  let root ← readObject readOrThrow (rawText (data.take size))
    "Unable to read json header of encrypted data. Error: "
    "Unable to read json header of encrypted data. Unknown error."
    "Invalid encrypted data header json type"
  let header ← parseHeader size root
  header.check
  .ok header

/-- The field in position `i` is stored under the name the header gives to the position. -/
def MessageHeader.store (header : MessageHeader) (result : EncryptMessageOutput) (i : Nat)
    (currentData : Bytes) : Decryption EncryptMessageOutput :=
  if (i : Int) = header.cipherPosition then .ok { result with cipher := currentData }
  else if (i : Int) = header.authDataPosition then .ok { result with authData := currentData }
  else if (i : Int) = header.ivPosition then .ok { result with nonce := currentData }
  else refuse ("An unexpected value position was found in header: " ++ toString i)

/-- One round of the loop over the fields; the state has the offset of the next one. -/
def MessageHeader.readField (header : MessageHeader) (data : Bytes)
    (state : Nat × EncryptMessageOutput) (i : Nat) : Decryption (Nat × EncryptMessageOutput) := do
  match header.dataSizes.lookup i with
  | none => refuse "map::at"
  | some size =>
    let currentData ← readRange data state.1 (state.1 + size)
    let result ← header.store state.2 i currentData
    .ok (state.1 + currentData.length, result)

def MessageHeader.emptyOutput (header : MessageHeader) : EncryptMessageOutput where
  cipher := []
  nonce := []
  authData := []
  encryptionAlgo := header.encryptionAlgo
  keyRatchetAlgo := header.keyRatchetAlgo
  authAlgo := header.authAlgo

def MessageHeader.readFields (header : MessageHeader) (data : Bytes) :
    Decryption EncryptMessageOutput := do
  let state ← (List.range fieldCount).foldlM (header.readField data)
    (header.size, header.emptyOutput)
  .ok state.2

/-- `EncryptMessageOutput::Deserialize`. The sum of the lengths is computed in type `int`; data
longer than the sum is refused, shorter data is not. -/
def deserialize (readOrThrow : JsonReader) (data : Bytes) : Decryption EncryptMessageOutput := do
  let header ← readHeader readOrThrow data
  let bothLengths ← addInt header.cipherLength header.authDataLength
  let totalBinSize ← addInt bothLengths header.ivLength
  refuseIf (data.length > header.size + totalBinSize.toNat)
    "The binary blob of the encrypted message doesn't have appropriate size."
  header.readFields data

/-- The operations of libsodium and OpenSSL that decryption calls. `secretboxOpen` works on NaCl's
padded texts and returns its error code if the box does not open. -/
structure Sodium where
  sha256 : Bytes → Vector UInt8 32
  sha384 : Bytes → Vector UInt8 48
  sha512 : Bytes → Vector UInt8 64
  onetimeauthVerify : (tag msg key : Bytes) → Bool
  secretboxOpen : (cipher nonce key : Bytes) → Except Int Bytes

inductive EncryptionAlgorithm where
  | xSalsa20Poly1305
  | size
  deriving DecidableEq, Repr

inductive AuthenticationAlgorithm where
  | poly1305
  | size
  deriving DecidableEq, Repr

inductive AuthKeyRatchetAlgorithm where
  | sha256
  | sha384
  | sha512
  | size
  deriving DecidableEq, Repr

def XSalsa20Poly1305AlgoName : String := "XSalsa20Poly1305"

def getEncryptionAlgoFromName (name : String) : Decryption EncryptionAlgorithm :=
  if name = XSalsa20Poly1305AlgoName then .ok .xSalsa20Poly1305
  else refuse ("Unknown encryption algorithm with name: " ++ name)

def getAuthAlgoFromName (name : String) : Decryption AuthenticationAlgorithm :=
  if name = XSalsa20Poly1305AlgoName then .ok .poly1305
  else refuse ("Unknown authentication algorithm with name: " ++ name)

def getRatchetAlgoFromName (name : String) : Decryption AuthKeyRatchetAlgorithm :=
  if name = "SHA256" then .ok .sha256
  else if name = "SHA384" then .ok .sha384
  else if name = "SHA512" then .ok .sha512
  else refuse ("Unknown key ratchet algorithm with name: " ++ name)

def getAuthAlgoKeyLength : AuthenticationAlgorithm → Option Nat
  | .poly1305 => some 32
  | .size => none

def getRatchetAlgoOutputLength : AuthKeyRatchetAlgorithm → Option Nat
  | .sha256 => some 32
  | .sha384 => some 48
  | .sha512 => some 64
  | .size => none

/-- `optional::get`, whose assertion stops the program. -/
def getValue {α : Type} : Option α → Decryption α
  | some a => .ok a
  | none => .error .assertFailed

def ratchetHash (sodium : Sodium) (key : Bytes) : AuthKeyRatchetAlgorithm → Decryption Bytes
  | .sha256 => .ok (sodium.sha256 key).toList
  | .sha384 => .ok (sodium.sha384 key).toList
  | .sha512 => .ok (sodium.sha512 key).toList
  | .size => refuse "Size enum element used as auth key ratchet algorithm"

/-- `CalculateKeyRatchet` with a key length. -/
def calculateKeyRatchet (sodium : Sodium) (keyRatchetAlgo : AuthKeyRatchetAlgorithm) (key : Bytes)
    (authenticationAlgoKeyLen : Nat) : Decryption Bytes := do
  let authKey ← ratchetHash sodium key keyRatchetAlgo
  if authKey.length < authenticationAlgoKeyLen then .error .assertFailed
  else .ok (authKey.take authenticationAlgoKeyLen)

def EncryptMessageOutput.assertNoneIsEmpty (output : EncryptMessageOutput) : Decryption Unit := do
  refuseIf (output.cipher = []) "Empty cipher"
  refuseIf (output.nonce = []) "Empty nonce"
  refuseIf (output.authData = []) "Empty authentication data"
  refuseIf (output.encryptionAlgo = "") "Empty encryption algorithm name"
  refuseIf (output.keyRatchetAlgo = "") "Empty key ratchet algorithm name"
  refuseIf (output.authAlgo = "") "Empty authentication algorithm name"

/-- The bytes from the last to the first, with a carry. -/
def incrementNonce (nonce : Bytes) : Bytes :=
  (nonce.foldr
    (fun b (carry, done) => ((carry + b.toNat) >>> 8, UInt8.ofNat (carry + b.toNat) :: done))
    (1, [])).2

def MAX_CRYPTOSECRETBOX_MSG_SIZE : Nat := 4096

/-- `crypto_secretbox_MACBYTES`, equal to `crypto_secretbox_BOXZEROBYTES`. -/
def MACBYTES : Nat := 16

def ZEROBYTES : Nat := 32

def NONCEBYTES : Nat := 24

def decryptBlock (sodium : Sodium) (cipher nonce key : Bytes) : Decryption Bytes := do
  refuseIf (cipher.length ≤ MACBYTES)
    ("Very short cipher provided; it must be larger than " ++ toString MACBYTES)
  refuseIf (cipher.length + MACBYTES > MAX_CRYPTOSECRETBOX_MSG_SIZE)
    ("NaCl cipher size is larger than max: " ++
      toString (MAX_CRYPTOSECRETBOX_MSG_SIZE - MACBYTES))
  match sodium.secretboxOpen (List.replicate MACBYTES 0 ++ cipher) nonce key with
  | .error r =>
    refuse ("crypto_secretbox_xsalsa20poly1305_open() returned a non-zero value: " ++ toString r)
  | .ok msgOutput => .ok ((msgOutput.drop ZEROBYTES).take (cipher.length - MACBYTES))

/-- The loop over the chunks. `ptr` has 32 bits; the size in front of a chunk is read before
anything says that four bytes are left. -/
def decryptChunks (sodium : Sodium) (cipher key : Bytes) :
    Nat → Nat → Bytes → Bytes → Decryption Bytes
  | 0, _, _, _ => .error .stillRunning
  | fuel + 1, ptr, nonce, res =>
    if cipher.length > ptr then do
      let currSizeRaw ← readRange cipher ptr (ptr + 4)
      let front : Nat := (ptr + 4) % 2 ^ 32
      let currSize := littleEndianValue currSizeRaw
      refuseIf (currSize > MAX_CRYPTOSECRETBOX_MSG_SIZE) "Chunk is larger than allowed limit"
      refuseIf ((currSize : Int) > (cipher.length : Int) - (front : Int))
        "Remaining size of cipher not enough to cover the next chunk size"
      let toDec ← readRange cipher front (front + currSize)
      let msg ← decryptBlock sodium toDec nonce key
      decryptChunks sodium cipher key fuel ((front + currSize) % 2 ^ 32)
        (incrementNonce nonce) (res ++ msg)
    else .ok res

/-- `XSalsa20poly1305_DecryptLongMsg_CTR`. Every round of the loop moves `ptr` by four bytes or
more, so a round for each byte is enough. -/
def decryptLongMsg (sodium : Sodium) (cipher key : Bytes) : Decryption Bytes := do
  refuseIf (cipher.length ≤ NONCEBYTES + 4) "Cipher too small"
  let nonce ← readRange cipher 0 NONCEBYTES
  decryptChunks sodium cipher key cipher.length NONCEBYTES nonce []

def authenticate (sodium : Sodium) (encryptedData : EncryptMessageOutput) (authKey : Bytes) :
    AuthenticationAlgorithm → Decryption Unit
  | .poly1305 => do
    let authKeyArray ← readRange authKey 0 32
    let authDataArray ← readRange encryptedData.authData 0 16
    refuseIf (sodium.onetimeauthVerify authDataArray encryptedData.cipher authKeyArray = false)
      "Message authentication failed"
  | .size => refuse "Size enum element used as authentication algorithm"

def getCanonicalSalsa20poly1305Key (key : Bytes) (algoName : String) : Decryption Bytes := do
  refuseIf (key.length ≠ 32) ("Invalid key size for algorithm: " ++ algoName)
  .ok key

def decryptWith (sodium : Sodium) (encryptedData : EncryptMessageOutput) (key : Bytes) :
    EncryptionAlgorithm → Decryption Bytes
  | .xSalsa20Poly1305 => do
    let keyIn ← getCanonicalSalsa20poly1305Key key encryptedData.encryptionAlgo
    decryptLongMsg sodium encryptedData.cipher keyIn
  | .size => refuse "Size enum element used as encryption algorithm"

/-- `GetAuthAlgoKeyLength` with the check of its result. -/
def authKeyLength (authAlgo : AuthenticationAlgorithm) : Decryption Nat :=
  match getAuthAlgoKeyLength authAlgo with
  | some length => .ok length
  | none => refuse "Invalid authentication algorithm key length found with index: 1"

def decryptMessage (sodium : Sodium) (encryptedData : EncryptMessageOutput) (key : Bytes) :
    Decryption Bytes := do
  encryptedData.assertNoneIsEmpty
  let encAlgo ← getEncryptionAlgoFromName encryptedData.encryptionAlgo
  let authAlgo ← getAuthAlgoFromName encryptedData.authAlgo
  let ratchetAlgo ← getRatchetAlgoFromName encryptedData.keyRatchetAlgo
  let authenticationAlgoKeyLen ← authKeyLength authAlgo
  let authKeyRatchetOutputLen ← getValue (getRatchetAlgoOutputLength ratchetAlgo)
  refuseIf (authKeyRatchetOutputLen < authenticationAlgoKeyLen)
    ("The key ratchet algorithm given has an output length smaller than the " ++
      "required authentication key length. Please choose another ratcheting algorithm.")
  let authKey ← calculateKeyRatchet sodium ratchetAlgo key authenticationAlgoKeyLen
  authenticate sodium encryptedData authKey authAlgo
  decryptWith sodium encryptedData key encAlgo

section Metadata

structure Libraries (CKey : Type) where
  readOrThrow : JsonReader
  rawPubKey : CKey → Except String Bytes
  setPubKey : Bytes → Bool
  generateSharedSecret : CKey → Bytes → Except String (Vector UInt8 32)

/-- The other party's key; the second comparison wins if both succeed. -/
def pubKeyToUse (ownPubKey sourcePubKeyRaw targetPubKeyRaw : Bytes) : Bytes :=
  if ownPubKey = targetPubKeyRaw then sourcePubKeyRaw
  else if ownPubKey = sourcePubKeyRaw then targetPubKeyRaw
  else []

variable {CKey : Type}

/-- `DecryptMetadata` up to the call of `Deserialize`: the encrypted message and the shared secret.
A key that is not canonical goes through: its exception is built and not thrown. -/
def openEnvelope (libraries : Libraries CKey) (data : String) (privateKey : CKey) :
    Decryption (Bytes × Vector UInt8 32) := do
  refuseIf (data = "") "Requested decryption of empty metadata data"
  refuseIf (data.toList.head? ≠ some '\x7b')
    "Unexpected header while attempting to decrypt metadata"
  let jsonHeaderObj ← readObject libraries.readOrThrow data
    "Unable to parse json header of encrypted metadata: Error: "
    "Unable to parse json header of encrypted metadata: Unknown error"
    "Invalid encrypted metadata header type"
  let version ← getIntValue jsonHeaderObj "SerializationVersion"
  let sourcePubKeyHex ← getStrValue jsonHeaderObj "SourcePubKeyHex"
  let targetPubKeyHex ← getStrValue jsonHeaderObj "TargetPubKeyHex"
  let cipherBase64 ← getStrValue jsonHeaderObj "Cipher64"
  refuseIf (version ≠ 2) "Unknown serialization version of encrypted metadata"
  let sourcePubKeyRaw ← fromOutcome (unhex sourcePubKeyHex)
  let targetPubKeyRaw ← fromOutcome (unhex targetPubKeyHex)
  let ownPubKey ← fromLibrary (libraries.rawPubKey privateKey)
  let otherPubKey := pubKeyToUse ownPubKey sourcePubKeyRaw targetPubKeyRaw
  refuseIf (otherPubKey = [])
    "Invalid private key. The private key failed to produce any of the public key."
  refuseIf (libraries.setPubKey otherPubKey = false)
    "Failed to set public key in a ckey object. Possibly an invalid public key."
  let sharedSecret ← fromLibrary (libraries.generateSharedSecret privateKey otherPubKey)
  .ok (decodeBase64 cipherBase64, sharedSecret)

def decryptMetadata (libraries : Libraries CKey) (sodium : Sodium) (data : String)
    (privateKey : CKey) : Decryption Bytes := do
  let (cipher, sharedSecret) ← openEnvelope libraries data privateKey
  let encryptedMessage ← deserialize libraries.readOrThrow cipher
  decryptMessage sodium encryptedMessage sharedSecret.toList

end Metadata

end Bfx.MessageDecryption

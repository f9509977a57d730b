import Persea.RecordingDecrypt

/-! Recordings at rest: `encrypt_bytes` seals the file, `decrypt_bytes` opens it at once, the player reads a stream. -/

namespace Persea.Crypto

open Base Gcm Recording.Stream
open List hiding Vector

/-- The cipher library: besides AES, the longest texts that it takes. -/
structure Lib extends Env where
  (maxPlain maxCipher : ℕ)
  maxPlain_le : maxPlain ≤ maxCipher

variable (lib : Lib) (key : Vector UInt8 32) (nonce : Vector UInt8 12) (plaintext : Bytes)

def encryptBytes : Except String Bytes :=
  let sealed := Gcm.encrypt (lib.aes256 key) nonce plaintext
  if plaintext.length ≤ lib.maxPlain then .ok (nonce.toList ++ sealed.1 ++ sealed.2.toList)
  else .error "encryption failed: aead::Error"

def decryptBytes (data : Bytes) : Except String Bytes :=
  let nonce : Vector UInt8 12 := Vector.ofFn fun i => (data.take gcmNonceLen).getD i.val 0
  let ciphertext := (data.drop gcmNonceLen).take (data.length - 28)
  if data.length < 28 then
    .error ("decryption failed: data too short (" ++ toString data.length ++ " bytes, need at least 28)")
  else if lib.maxCipher < ciphertext.length then .error "decryption failed: aead::Error"
  else match Gcm.decrypt (lib.aes256 key) nonce ciphertext ((data.drop (data.length - gcmTagLen)).take gcmTagLen) with
    | none => .error "decryption failed: aead::Error"
    | some plaintext => .ok plaintext

variable {lib key nonce plaintext}

/-- **Recordings come back.** Both readers of a sealed recording return what was recorded, the player for every way in
which the file system cuts the file into reads. -/
theorem recording_read_back {fs : FileSystem} {emit : Emit} {keyHex : String}
    (hkey : lib.hexDecode keyHex = .ok key.toList) (hfile : fs.openFile = encryptBytes lib key nonce plaintext)
    (hmax : plaintext.length ≤ lib.maxPlain) (hsize : plaintext.length / gcmBlock + 2 ≤ u32Max) (hreads : fs.Reads)
    (hemit : emit.Accepts) : fs.openFile.bind (decryptBytes lib key) = .ok plaintext ∧
      ∃ chunks, decryptRecordingStream fs lib.toEnv emit keyHex = .ok chunks ∧ chunks.flatten = plaintext := by
  obtain ⟨hlength, hdecrypt⟩ := decrypt_encrypt (lib.aes256 key) nonce plaintext
  rw [encryptBytes, if_pos hmax] at hfile
  generalize Gcm.encrypt (lib.aes256 key) nonce plaintext = sealed at hlength hdecrypt hfile
  obtain ⟨ciphertext, tag⟩ := sealed
  replace hlength : ciphertext.length = plaintext.length := hlength
  obtain ⟨hnonce, hcipher, htag, hlen⟩ := layout nonce ciphertext tag
  rw [← hlength] at hsize hmax
  constructor
  · rw [hlen] at htag
    simp only [hfile, Except.bind, decryptBytes, hnonce, htag, hlen, Nat.add_sub_cancel, hcipher, ofFn_toList_getD,
      hdecrypt]
    rw [if_neg (by omega), if_neg (hmax.trans lib.maxPlain_le).not_gt]
  · obtain ⟨file, hcontent, hrun⟩ := decryptRecordingStream_eq emit hkey hfile hsize hreads
    obtain ⟨htags, hplain⟩ := Option.ite_none_right_eq_some.mp hdecrypt
    rw [← hcontent] at hcipher hlen
    obtain ⟨chunks, hpass, hflatten⟩ := decryptPass_ok hreads hemit file hsize (by rw [hlen, gcmNonceLen]; omega) hcipher
    exact ⟨chunks, by rw [hrun, if_pos htags.symm, hpass], hflatten.trans (Option.some.inj hplain)⟩

def placeLib : Lib := { placeEnv with maxPlain := 2 ^ 36, maxCipher := 2 ^ 36 + 16, maxPlain_le := by decide }

theorem recording_read_back_short_reads : ∃ chunks, decryptRecordingStream
    ⟨encryptBytes placeLib (Vector.replicate 32 0) countingNonce countingText, fun k => .ok (k % 3 + 5)⟩ placeEnv
    (fun _ _ => .ok ()) zeroKeyHex = .ok chunks ∧ chunks.flatten = countingText := by
  have hkey : placeLib.hexDecode zeroKeyHex = .ok (Vector.replicate 32 (0 : UInt8)).toList := by
    simp only [placeLib, placeEnv, if_true]
  exact (recording_read_back hkey rfl (by decide) (by decide +kernel) (fun k => ⟨k % 3 + 5, rfl⟩) fun _ _ => rfl).2

end Persea.Crypto

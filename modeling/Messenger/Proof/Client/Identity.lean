import Messenger.Model.Identity
import Messenger.Proof.Client.Crypto

/-!
# Who a program is when it starts again

The identity key is what others can know a program by, since the DH key is a new one each time.
It survives if the start that has made it has written it in full and no later start finds the file
unreadable (`identity_survives`): then every start that reads the file has the same identity, and
signs its new DH key such that who remembers the identity can check it.

Both conditions are needed. If the file is cut short, no later start returns, as nothing ever
writes it again. If a start cannot open it for reading, for `set_key` there is no file, and the
identity is replaced, without a word, by a new one.
-/

set_option autoImplicit false

namespace Messenger

open Messenger.Lib EncryptionService

variable {ssl : OpenSSL} {entropy : Nat → Option Iv} {a : SetKeyAnswer} {bytes dh : Bytes}
  {file : Option Bytes}

theorem loadOrGenerateKey_key (h : a.dhKey = .key dh) : loadOrGenerateKey a.dhKey = .ok dh := by
  rw [h]
  rfl

/-- A start that finds no file, and returns, has made a key and written it, or as much of it as the
    system took. Whether the write was complete is not checked, and the start returns either way. -/
theorem setKey_makes {e : EncryptionService} {file' : Option Bytes}
    (h : setKey entropy a file = .ok e file') (hexists : IdentityKey.fileExists a file = false) :
    ∃ k : IdentityKey, a.identityKey = .key k ∧ e.identityKey = k.1 ∧
      file' = some (k.1.take a.written) := by
  obtain ⟨dhKey, file₁, hdh, hrest⟩ := bind_eq_ok h
  obtain rfl : file₁ = file := by
    cases hkey : loadOrGenerateKey a.dhKey with
    | ok k =>
      rw [hkey] at hdh
      cases hdh
      rfl
    | error x =>
      rw [hkey] at hdh
      cases hdh
  rw [get_bind_run, hexists, if_neg (by simp)] at hrest
  cases hidentity : a.identityKey with
  | noContext =>
    rw [hidentity] at hrest
    cases hrest
  | failed =>
    rw [hidentity] at hrest
    cases hrest
  | key k =>
    rw [hidentity] at hrest
    unfold IdentityKey.saveFile at hrest
    cases hopened : a.opened with
    | false =>
      rw [hopened] at hrest
      cases hrest
    | true =>
      rw [hopened] at hrest
      cases hrest
      exact ⟨k, rfl, rfl, rfl⟩

/-- A start that can read the file uses it, and leaves it as it is. -/
theorem setKey_readable (entropy : Nat → Option Iv) (h : a.readable = true) (bytes : Bytes) :
    setKey entropy a (some bytes) = (do
      let dhKey ← liftExcept (loadOrGenerateKey a.dhKey)
      let loaded ← IdentityKey.loadFile a
      let k ← liftExcept (IdentityKey.fromPrivateBytes loaded)
      return { dhKey := dhKey, identityKey := k.1, entropy := entropy } :
        KeyFileM EncryptionService) (some bytes) := by
  have hexists : IdentityKey.fileExists a (some bytes) = true := by
    unfold IdentityKey.fileExists
    rw [h]
    rfl
  unfold setKey
  cases hkey : loadOrGenerateKey a.dhKey with
  | error x => rfl
  | ok k =>
    have hreturns : (liftExcept (.ok k) : KeyFileM Bytes) (some bytes) = .ok k (some bytes) := rfl
    rw [bind_ok hreturns, bind_ok hreturns, get_bind_run, hexists, if_pos rfl]

/-- Reading gives the first bytes of the file, or fails; it does not change the file. -/
theorem loadFile_run (a : SetKeyAnswer) (bytes : Bytes) :
    (∃ n, a.read = some n ∧
      IdentityKey.loadFile a (some bytes) = .ok (bytes.take n) (some bytes)) ∨
    ∃ x, IdentityKey.loadFile a (some bytes) = .error x (some bytes) := by
  unfold IdentityKey.loadFile
  rw [get_bind_run]
  cases a.read with
  | none => exact .inr ⟨_, rfl⟩
  | some n => exact .inl ⟨n, rfl, rfl⟩

/-- A start that gets all of a key that is all there. -/
theorem setKey_whole (hreadable : a.readable = true) (hdh : a.dhKey = .key dh) {n : Nat}
    (hread : a.read = some n) (hn : 32 ≤ n) (k : IdentityKey) :
    setKey entropy a (some k.1)
      = .ok { dhKey := dh, identityKey := k.1, entropy := entropy } (some k.1) := by
  have hload : IdentityKey.loadFile a (some k.1) = .ok k.1 (some k.1) := by
    unfold IdentityKey.loadFile
    rw [get_bind_run, hread]
    show EStateM.Result.ok (k.1.take n) _ = _
    rw [List.take_of_length_le (by rw [k.2]; exact hn)]
  have hkey : IdentityKey.fromPrivateBytes k.1 = .ok k := dif_pos k.2
  have hreturns : (liftExcept (.ok dh) : KeyFileM Bytes) (some k.1) = .ok dh (some k.1) := rfl
  rw [setKey_readable entropy hreadable, loadOrGenerateKey_key hdh, bind_ok hreturns, bind_ok hload,
    hkey]
  rfl

/-- A file that is too short for a key is never more than read. There is no way back from it: the
    file exists, so no start makes a new key. -/
theorem setKey_cut (hreadable : a.readable = true) (h : bytes.length < 32) :
    ∃ x, setKey entropy a (some bytes) = .error x (some bytes) := by
  rw [setKey_readable entropy hreadable]
  cases hkey : loadOrGenerateKey a.dhKey with
  | error x => exact ⟨x, rfl⟩
  | ok k =>
    have hreturns : (liftExcept (.ok k) : KeyFileM Bytes) (some bytes) = .ok k (some bytes) := rfl
    rw [bind_ok hreturns]
    rcases loadFile_run a bytes with ⟨n, -, hload⟩ | ⟨x, hload⟩
    · have hrefused : IdentityKey.fromPrivateBytes (bytes.take n)
          = .error (runtimeError "Failed to create key from private bytes") := by
        refine dif_neg ?_
        rw [List.length_take]
        omega
      rw [bind_ok hload, hrefused]
      exact ⟨_, rfl⟩
    · exact ⟨x, bind_error hload⟩

theorem setKey_keeps_file (entropy : Nat → Option Iv) (hreadable : a.readable = true)
    (bytes : Bytes) : finalState (setKey entropy a) (some bytes) = some bytes := by
  rw [finalState_congr (setKey_readable entropy hreadable bytes)]
  cases hkey : loadOrGenerateKey a.dhKey with
  | error x => rfl
  | ok k =>
    have hreturns : (liftExcept (.ok k) : KeyFileM Bytes) (some bytes) = .ok k (some bytes) := rfl
    rw [finalState_bind_ok hreturns]
    rcases loadFile_run a bytes with ⟨n, -, hload⟩ | ⟨x, hload⟩
    · rw [finalState_bind_ok hload]
      cases IdentityKey.fromPrivateBytes (bytes.take n) with
      | error x => rfl
      | ok k => rfl
    · exact finalState_bind_error hload

/-- By induction on the starts: none of them writes, as all of them find the file. -/
theorem afterStarts_some (entropy : Nat → Option Iv) (bytes : Bytes) {starts : List SetKeyAnswer}
    (h : ∀ b ∈ starts, b.readable = true) :
    afterStarts entropy (some bytes) starts = some bytes := by
  induction starts with
  | nil => rfl
  | cons b starts ih =>
    have hrest := ih fun c hc => h c (List.mem_cons_of_mem b hc)
    unfold afterStarts at hrest ⊢
    rw [List.foldl_cons, setKey_keeps_file entropy (h b List.mem_cons_self)]
    exact hrest

/-- **An identity survives as long as its file can be read.** A start makes an identity, and any
    number of starts follow that could read the file. If all of the key has been written, a start
    that reads it, and gets a DH key, has the same identity, and its signature can be checked with
    the public key of the first. If less has been written, every start that could read it fails.
    And a start that cannot open the file for reading, and returns, has an identity of its own,
    which is in the file from then on. -/
theorem identity_survives (hssl : ssl.Correct) {file₀ : Option Bytes} {e : EncryptionService}
    (hmade : IdentityKey.fileExists a file₀ = false)
    (h : setKey entropy a file₀ = .ok e file) {starts : List SetKeyAnswer}
    (hstarts : ∀ b ∈ starts, b.readable = true) (b : SetKeyAnswer) :
    (32 ≤ a.written → b.readable = true → ∀ dh n, b.dhKey = .key dh → b.read = some n → 32 ≤ n →
      ∃ e', setKey entropy b (afterStarts entropy file starts) = .ok e' file ∧ e'.dhKey = dh ∧
        e'.identityKey = e.identityKey ∧
        ssl.edVerify (e.getIdentityBytes ssl) (e'.getDHBytes ssl) (e'.sign ssl) = true) ∧
    (a.written < 32 → b.readable = true →
      ∃ x, setKey entropy b (afterStarts entropy file starts) = .error x file) ∧
    (b.readable = false → ∀ e' file',
      setKey entropy b (afterStarts entropy file starts) = .ok e' file' →
      ∃ k : IdentityKey, b.identityKey = .key k ∧ e'.identityKey = k.1 ∧
        file' = some (k.1.take b.written)) := by
  obtain ⟨k, -, hidentity, rfl⟩ := setKey_makes h hmade
  rw [afterStarts_some entropy _ hstarts]
  refine ⟨fun hwhole hreadable dh n hdh hread hn => ?_, fun hcut hreadable => ?_,
    fun hreadable e' file' hrun => ?_⟩
  · have hfile : k.1.take a.written = k.1 := List.take_of_length_le (by rw [k.2]; exact hwhole)
    rw [hfile]
    refine ⟨_, setKey_whole hreadable hdh hread hn k, rfl, hidentity.symm, ?_⟩
    unfold getIdentityBytes sign getDHBytes
    rw [hidentity]
    exact hssl.ed_verifies _ _
  · refine setKey_cut hreadable ?_
    rw [List.length_take, k.2]
    omega
  · exact setKey_makes hrun (by simp [IdentityKey.fileExists, hreadable])

/-- A first start and, after one without entropy, a third. -/
theorem identity_survives_failure :
    ∃ e', setKey zeroEntropy { dhKey := .key [2], identityKey := .noContext }
        (afterStarts zeroEntropy (some (List.replicate 32 7))
          [{ dhKey := .failed, identityKey := .failed }])
          = .ok e' (some (List.replicate 32 7)) ∧ e'.dhKey = [2] ∧
      e'.identityKey = List.replicate 32 7 ∧
      clearSSL.edVerify (clearSSL.edPublic (List.replicate 32 7)) (e'.getDHBytes clearSSL)
        (e'.sign clearSSL) = true :=
  (identity_survives clearSSL_correct
    (a := { dhKey := .key [1], identityKey := .key ⟨List.replicate 32 7, rfl⟩ })
    (show IdentityKey.fileExists _ none = false from rfl) rfl (by simp)
    { dhKey := .key [2], identityKey := .noContext }).1
    (le_refl 32) rfl [2] 32 rfl rfl (le_refl 32)

/-- A file that may be written and not read: the second start takes another identity, and leaves
    it to the third. -/
example :
    let first : SetKeyAnswer :=
      { dhKey := .key [1], identityKey := .key ⟨List.replicate 32 7, rfl⟩ }
    let unreadable : SetKeyAnswer :=
      { dhKey := .key [2], identityKey := .key ⟨List.replicate 32 8, rfl⟩, readable := false }
    afterStarts zeroEntropy none [first, unreadable] = some (List.replicate 32 8) := by
  decide +kernel

end Messenger

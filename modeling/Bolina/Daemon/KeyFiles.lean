import Bolina.Transport.NoiseAgreement
import Bolina.Transport.Token

namespace Bolina.KeyFiles

open Codec Transport Noise

def maxCas : Nat := 8
def maxCert : Nat := 1024
def keyLen : Nat := 32

inductive KeysError where
  | DataDirUnwritable
  | KeyFileCorrupt
  | PubMismatch
  | CertTooLarge
  | DiskError
  deriving DecidableEq,Repr

/-- A file of the data directory: it is not there, it cannot be read, or what it holds. -/
inductive FileState where
  | absent
  | unreadable
  | holds (bytes : Bytes)
  deriving DecidableEq

/-- The files that are generated where they are missing. -/
inductive KeyFile where
  | secretKey
  | staticPub
  | sigKey
  deriving DecidableEq

/-- The data directory; `usable` is the answer of `ensure_dir`. -/
structure DataDir where
  usable : Bool
  key : KeyFile → FileState
  cert : FileState
  ca : List.Vector FileState maxCas

/-- The signing key is known by its seed. -/
structure Keys where
  secretStatic : Key
  pubStatic : Key
  sigKey : Key
  cert : Bytes
  caPubs : List Key
  deriving DecidableEq

/-- How a private write ends: all is done, the bytes are there and the permissions are not
set, or the write fails and leaves something. -/
inductive WriteOutcome where
  | done
  | unguarded
  | failed (left : FileState)
  deriving DecidableEq

/-- What the generator gives and what becomes of the writes. -/
structure Supply where
  secret : Key
  seed : Key
  write : KeyFile → WriteOutcome

/-- The directory with the key files that were written, oldest first. -/
structure KeyStore where
  dir : DataDir
  written : List KeyFile

def readKeyFile (f : FileState) (expect : Nat) : Except KeysError (Option Bytes) :=
  match f with
  | .holds bytes => if bytes.length≠expect then .error .KeyFileCorrupt else .ok (some bytes)
  | .absent => .ok none
  | .unreadable => .error .DiskError

def KeyStore.put (s : KeyStore) (f : KeyFile) (left : FileState) : KeyStore :=
  ⟨{ s.dir with key := Function.update s.dir.key f left },s.written++[f]⟩

def writePrivate (x : Supply) (f : KeyFile) (bytes : Bytes) (s : KeyStore) : Except KeysError Unit × KeyStore :=
  match x.write f with
  | .done => (.ok (),s.put f (.holds bytes))
  | .unguarded => (.error .DiskError,s.put f (.holds bytes))
  | .failed left => (.error .DiskError,s.put f left)

def timingSafeEq (a b : Bytes) : Bool :=
  if a.length≠b.length then false else (List.zipWith (·^^^·) a b).foldl (·|||·) 0==0

/-- A key file: what it holds is checked; where it is missing the key is written to it. -/
def loadKey (x : Supply) (f : KeyFile) (check : Bytes → Except KeysError Key) (gen : Key) (s : KeyStore) :
    Except KeysError Key × KeyStore :=
  match readKeyFile (s.dir.key f) keyLen with
  | .error e => (.error e,s)
  | .ok (some bytes) => (check bytes,s)
  | .ok none =>
    match writePrivate x f gen.toList s with
    | (.error e,s') => (.error e,s')
    | (.ok _,s') => (.ok gen,s')

def storedKey (bytes : Bytes) : Except KeysError Key :=
  if bytes.length=keyLen then .ok (fixed 32 bytes) else .error .KeyFileCorrupt

def storedPub (pubStatic : Key) (stored : Bytes) : Except KeysError Key :=
  if timingSafeEq stored pubStatic.toList=false then .error .PubMismatch else .ok pubStatic

def loadCert : FileState → Except KeysError Bytes
  | .holds c => if maxCert < c.length then .error .CertTooLarge else .ok c
  | .absent => .ok []
  | .unreadable => .error .DiskError

/-- The first label that is missing ends the keys. -/
def loadCas : List FileState → Except KeysError (List Key)
  | [] => .ok []
  | .absent::_ => .ok []
  | .unreadable::_ => .error .DiskError
  | .holds b::rest =>
    if b.length≠keyLen then .error .KeyFileCorrupt else (loadCas rest).map (fun ks => fixed 32 b::ks)

def loadOrGenerate (S : Suite) (x : Supply) (s : KeyStore) : Except KeysError Keys × KeyStore :=
  if s.dir.usable=false then (.error .DataDirUnwritable,s)
  else
    match loadKey x .secretKey storedKey x.secret s with
    | (.error e,s) => (.error e,s)
    | (.ok secretStatic,s) =>
      let pubStatic := S.x25519 secretStatic x25519Basepoint
      match loadKey x .staticPub (storedPub pubStatic) pubStatic s with
      | (.error e,s) => (.error e,s)
      | (.ok _,s) =>
        match loadKey x .sigKey storedKey x.seed s with
        | (.error e,s) => (.error e,s)
        | (.ok sigKey,s) =>
          match loadCert s.dir.cert with
          | .error e => (.error e,s)
          | .ok cert =>
            match loadCas s.dir.ca.toList with
            | .error e => (.error e,s)
            | .ok caPubs => (.ok ⟨secretStatic,pubStatic,sigKey,cert,caPubs⟩,s)

theorem timingSafeEq_iff (a b : Bytes) : timingSafeEq a b=true ↔ a=b := by
  rw [timingSafeEq]
  by_cases hl : a.length=b.length
  · rw [if_neg (not_not_intro hl),beq_iff_eq,Token.or_fold,Token.xor_zero a b hl]
    exact ⟨fun h => h.2,fun h => ⟨rfl,h⟩⟩
  · rw [if_pos hl]
    exact iff_of_false Bool.false_ne_true (fun h => hl (congrArg List.length h))

/-- A check that takes the key a file holds, if any. -/
def Takes (check : Bytes → Except KeysError Key) : Prop := ∀bytes k,check bytes=.ok k → bytes=k.toList

theorem takes_storedKey : Takes storedKey := by
  intro bytes k h
  rw [storedKey] at h
  by_cases hlen : bytes.length=keyLen
  · rw [if_pos hlen] at h
    rw [← Except.ok.inj h]
    exact (toList_fixed bytes hlen).symm
  · rw [if_neg hlen] at h
    cases h

theorem takes_storedPub (pubStatic : Key) : Takes (storedPub pubStatic) := by
  intro bytes k h
  rw [storedPub] at h
  by_cases heq : timingSafeEq bytes pubStatic.toList=false
  · rw [if_pos heq] at h
    cases h
  · rw [if_neg heq] at h
    rw [← Except.ok.inj h]
    exact (timingSafeEq_iff _ _).mp (by simpa using heq)

theorem storedKey_toList (k : Key) : storedKey k.toList=.ok k := by
  have hlen : k.toList.length=keyLen := k.toList_length
  rw [storedKey,if_pos hlen]
  exact congrArg Except.ok (fixed_toList k)

theorem storedPub_toList (k : Key) : storedPub k k.toList=.ok k := by
  rw [storedPub,(timingSafeEq_iff _ _).mpr rfl]
  rfl

/-- What a write leaves of a key. -/
def Supply.leaves (x : Supply) (f : KeyFile) (k : Key) : FileState :=
  match x.write f with
  | .failed left => left
  | _ => .holds k.toList

/-- What the turn of a key file gives. -/
def loadResult (x : Supply) (f : KeyFile) (check : Bytes → Except KeysError Key) (gen : Key) :
    FileState → Except KeysError Key
  | .absent => if x.write f=.done then .ok gen else .error .DiskError
  | .unreadable => .error .DiskError
  | .holds bytes => if bytes.length=keyLen then check bytes else .error .KeyFileCorrupt

/-- The directory behind the turn of a key file: one that is missing is written. -/
def KeyStore.turned (x : Supply) (f : KeyFile) (gen : Key) (s : KeyStore) : KeyStore :=
  if s.dir.key f=.absent then s.put f (x.leaves f gen) else s

theorem writePrivate_eq (x : Supply) (f : KeyFile) (k : Key) (s : KeyStore) :
    writePrivate x f k.toList s=
      (if x.write f=.done then .ok () else .error .DiskError,s.put f (x.leaves f k)) := by
  rw [writePrivate,Supply.leaves]
  cases hw : x.write f <;> rfl

theorem loadKey_eq (x : Supply) (f : KeyFile) (check : Bytes → Except KeysError Key) (gen : Key) (s : KeyStore) :
    loadKey x f check gen s=(loadResult x f check gen (s.dir.key f),s.turned x f gen) := by
  rw [loadKey,KeyStore.turned]
  cases hf : s.dir.key f with
  | absent =>
    simp only [readKeyFile,writePrivate_eq,loadResult,if_true]
    by_cases hw : x.write f=.done
    · simp only [if_pos hw]
    · simp only [if_neg hw]
  | unreadable => rfl
  | holds bytes =>
    rw [if_neg (by simp)]
    by_cases hlen : bytes.length=keyLen
    · simp only [readKeyFile,loadResult,hlen,ne_eq,not_true_eq_false,if_false,if_true]
    · simp only [readKeyFile,loadResult,hlen,ne_eq,not_false_eq_true,if_true,if_false]

section Turned

variable {x : Supply} {f g : KeyFile} {gen k : Key} {s : KeyStore} {check : Bytes → Except KeysError Key}

theorem turned_present (h : s.dir.key f≠.absent) : s.turned x f gen=s := if_neg h

theorem turned_key (h : g≠f) : (s.turned x f gen).dir.key g=s.dir.key g := by
  rw [KeyStore.turned]
  split
  · exact Function.update_of_ne h _ _
  · rfl

@[simp] theorem turned_cert : (s.turned x f gen).dir.cert=s.dir.cert := by
  rw [KeyStore.turned]
  split <;> rfl

@[simp] theorem turned_ca : (s.turned x f gen).dir.ca=s.dir.ca := by
  rw [KeyStore.turned]
  split <;> rfl

/-- A turn gives the key that it generates, or one that the check takes. -/
theorem loadResult_ok {file : FileState} (h : loadResult x f check gen file=.ok k) :
    (file=.absent ∧ x.write f=.done ∧ k=gen) ∨
      ∃bytes,file=.holds bytes ∧ bytes.length=keyLen ∧ check bytes=.ok k := by
  cases file with
  | absent =>
    rw [loadResult] at h
    by_cases hw : x.write f=.done
    · rw [if_pos hw] at h
      exact .inl ⟨rfl,hw,(Except.ok.inj h).symm⟩
    · rw [if_neg hw] at h
      cases h
  | unreadable => cases h
  | holds bytes =>
    rw [loadResult] at h
    by_cases hlen : bytes.length=keyLen
    · rw [if_pos hlen] at h
      exact .inr ⟨bytes,rfl,hlen,h⟩
    · rw [if_neg hlen] at h
      cases h

/-- A key that was taken or generated is what its file then holds. -/
theorem turned_ok (hc : Takes check) (h : loadResult x f check gen (s.dir.key f)=.ok k) :
    (s.turned x f gen).dir.key f=.holds k.toList := by
  rcases loadResult_ok h with hgen | hheld
  · obtain ⟨hf,hw,hk⟩ := hgen
    rw [hk,KeyStore.turned,if_pos hf]
    change Function.update s.dir.key f (x.leaves f gen) f=_
    rw [Function.update_self,Supply.leaves,hw]
  · obtain ⟨bytes,hf,_,hcheck⟩ := hheld
    rw [turned_present (by rw [hf]; simp),hf,hc bytes k hcheck]

/-- A file that holds its key is read and left. -/
theorem loadKey_held (h : s.dir.key f=.holds k.toList) : loadKey x f check gen s=(check k.toList,s) := by
  have hlen : k.toList.length=keyLen := k.toList_length
  rw [loadKey_eq,turned_present (by rw [h]; simp),h,loadResult,if_pos hlen]

end Turned

/-- The keys are what the directory holds. -/
structure Stored (S : Suite) (k : Keys) (d : DataDir) : Prop where
  usable : d.usable=true
  secret : d.key .secretKey=.holds k.secretStatic.toList
  derived : k.pubStatic=S.x25519 k.secretStatic x25519Basepoint
  pub : d.key .staticPub=.holds k.pubStatic.toList
  sig : d.key .sigKey=.holds k.sigKey.toList
  cert : loadCert d.cert=.ok k.cert
  cas : loadCas d.ca.toList=.ok k.caPubs

section Load

variable (S : Suite) (x : Supply) (s : KeyStore)

/-- What the turns of the three key files give. -/
def secretResult : Except KeysError Key := loadResult x .secretKey storedKey x.secret (s.dir.key .secretKey)

def pubResult (secret : Key) : Except KeysError Key :=
  loadResult x .staticPub (storedPub (S.x25519 secret x25519Basepoint)) (S.x25519 secret x25519Basepoint)
    (s.dir.key .staticPub)

def sigResult : Except KeysError Key := loadResult x .sigKey storedKey x.seed (s.dir.key .sigKey)

/-- The directory behind each turn. -/
def secretTurned : KeyStore := s.turned x .secretKey x.secret

def pubTurned (secret : Key) : KeyStore :=
  (secretTurned x s).turned x .staticPub (S.x25519 secret x25519Basepoint)

def sigTurned (secret : Key) : KeyStore := (pubTurned S x s secret).turned x .sigKey x.seed

/-- How a load can end. -/
inductive LoadEnds : Except KeysError Keys × KeyStore → Prop where
  | unusable (h : s.dir.usable=false) : LoadEnds (.error .DataDirUnwritable,s)
  | badSecret (e : KeysError) (hu : s.dir.usable=true) (h : secretResult x s=.error e) :
      LoadEnds (.error e,secretTurned x s)
  | badPub (secret : Key) (e : KeysError) (hu : s.dir.usable=true) (hsecret : secretResult x s=.ok secret)
      (h : pubResult S x s secret=.error e) : LoadEnds (.error e,pubTurned S x s secret)
  | badSig (secret pub : Key) (e : KeysError) (hu : s.dir.usable=true) (hsecret : secretResult x s=.ok secret)
      (hpub : pubResult S x s secret=.ok pub) (h : sigResult x s=.error e) :
      LoadEnds (.error e,sigTurned S x s secret)
  | badRest (secret pub sig : Key) (e : KeysError) (hu : s.dir.usable=true) (hsecret : secretResult x s=.ok secret)
      (hpub : pubResult S x s secret=.ok pub) (hsig : sigResult x s=.ok sig) :
      LoadEnds (.error e,sigTurned S x s secret)
  | loaded (secret pub sig : Key) (cert : Bytes) (cas : List Key) (hu : s.dir.usable=true)
      (hsecret : secretResult x s=.ok secret) (hpub : pubResult S x s secret=.ok pub) (hsig : sigResult x s=.ok sig)
      (hcert : loadCert s.dir.cert=.ok cert) (hcas : loadCas s.dir.ca.toList=.ok cas) :
      LoadEnds (.ok ⟨secret,S.x25519 secret x25519Basepoint,sig,cert,cas⟩,sigTurned S x s secret)

theorem secret_turn : loadKey x .secretKey storedKey x.secret s=(secretResult x s,secretTurned x s) := loadKey_eq _ _ _ _ _

theorem pub_turn (secret : Key) :
    loadKey x .staticPub (storedPub (S.x25519 secret x25519Basepoint)) (S.x25519 secret x25519Basepoint)
      (secretTurned x s)=(pubResult S x s secret,pubTurned S x s secret) := by
  have hkey : (secretTurned x s).dir.key .staticPub=s.dir.key .staticPub := turned_key (by decide)
  rw [loadKey_eq,hkey]
  rfl

theorem sig_turn (secret : Key) :
    loadKey x .sigKey storedKey x.seed (pubTurned S x s secret)=(sigResult x s,sigTurned S x s secret) := by
  have hkey : (pubTurned S x s secret).dir.key .sigKey=s.dir.key .sigKey := by
    rw [pubTurned,turned_key (by decide),secretTurned,turned_key (by decide)]
  rw [loadKey_eq,hkey]
  rfl

theorem loadOrGenerate_ends : LoadEnds S x s (loadOrGenerate S x s) := by
  rw [loadOrGenerate,secret_turn]
  cases hu : s.dir.usable with
  | false => exact .unusable hu
  | true =>
    rw [if_neg (by decide)]
    cases hsecret : secretResult x s with
    | error e => exact .badSecret e hu hsecret
    | ok secret =>
      dsimp only
      rw [pub_turn]
      cases hpub : pubResult S x s secret with
      | error e => exact .badPub secret e hu hsecret hpub
      | ok pub =>
        dsimp only
        rw [sig_turn]
        cases hsig : sigResult x s with
        | error e => exact .badSig secret pub e hu hsecret hpub hsig
        | ok sig =>
          have hcertFile : (sigTurned S x s secret).dir.cert=s.dir.cert := by simp [sigTurned,pubTurned,secretTurned]
          have hcaFiles : (sigTurned S x s secret).dir.ca=s.dir.ca := by simp [sigTurned,pubTurned,secretTurned]
          dsimp only
          rw [hcertFile,hcaFiles]
          cases hcert : loadCert s.dir.cert with
          | error e => exact .badRest secret pub sig e hu hsecret hpub hsig
          | ok cert =>
            cases hcas : loadCas s.dir.ca.toList with
            | error e => exact .badRest secret pub sig e hu hsecret hpub hsig
            | ok cas => exact .loaded secret pub sig cert cas hu hsecret hpub hsig hcert hcas

end Load

/-- Keys that are there are loaded, whatever the generator and the disk would do. -/
theorem stored_load {S : Suite} {x : Supply} {s : KeyStore} {k : Keys} (h : Stored S k s.dir) :
    loadOrGenerate S x s=(.ok k,s) := by
  rw [loadOrGenerate,if_neg (by rw [h.usable]; decide)]
  simp only [loadKey_held h.secret,loadKey_held h.pub,loadKey_held h.sig,storedKey_toList,← h.derived,storedPub_toList,
    h.cert,h.cas]

section Created

variable (S : Suite) (x : Supply)

/-- The secret of the directory, or the one that is generated for it. -/
def inUse (d : DataDir) : Key :=
  match d.key .secretKey with
  | .holds bytes => fixed 32 bytes
  | _ => x.secret

/-- What is generated for a key file that is missing. -/
def content (d : DataDir) : KeyFile → Key
  | .secretKey => x.secret
  | .staticPub => S.x25519 (inUse x d) x25519Basepoint
  | .sigKey => x.seed

/-- A key file is no reason to refuse: it is missing and can be written, or it holds a key,
and the public one is that of the secret. -/
def passes (d : DataDir) (f : KeyFile) : Bool :=
  match d.key f with
  | .absent => x.write f=.done
  | .unreadable => false
  | .holds bytes => bytes.length=keyLen ∧ (f=.staticPub → bytes=(content S x d f).toList)

/-- The order in which the key files have their turn. -/
def order : List KeyFile := [.secretKey,.staticPub,.sigKey]

/-- The turns that are come to: the first file that does not pass is the last. -/
def reached (p : KeyFile → Bool) : List KeyFile → List KeyFile
  | [] => []
  | f::fs => if p f then f::reached p fs else [f]

/-- The key files that were missing when their turn came. -/
def created (d : DataDir) : List KeyFile :=
  if d.usable then (reached (passes S x d) order).filter (fun f => d.key f=.absent) else []

/-- Files that are written one after the other. -/
def KeyStore.putAll (left : KeyFile → FileState) (fs : List KeyFile) (s : KeyStore) : KeyStore :=
  fs.foldl (fun s f => s.put f (left f)) s

/-- What a load leaves of the files that it creates. -/
def leftOf (d : DataDir) (f : KeyFile) : FileState := x.leaves f (content S x d f)

variable {S x} {s : KeyStore} {d : DataDir} {f g : KeyFile} {fs : List KeyFile} {left : KeyFile → FileState}

theorem putAll_written : (s.putAll left fs).written=s.written++fs := by
  induction fs generalizing s with
  | nil => exact (List.append_nil _).symm
  | cons f fs ih =>
    have hput : (s.put f (left f)).written=s.written++[f] := rfl
    rw [KeyStore.putAll,List.foldl_cons]
    exact (ih).trans (by rw [hput,List.append_assoc]; rfl)

theorem putAll_frame : (s.putAll left fs).dir.usable=s.dir.usable ∧ (s.putAll left fs).dir.cert=s.dir.cert ∧
    (s.putAll left fs).dir.ca=s.dir.ca := by
  induction fs generalizing s with
  | nil => exact ⟨rfl,rfl,rfl⟩
  | cons f fs ih => exact @ih (s.put f (left f))

theorem putAll_key : (s.putAll left fs).dir.key g=if g∈fs then left g else s.dir.key g := by
  induction fs generalizing s with
  | nil => rfl
  | cons f fs ih =>
    have hstep : s.putAll left (f::fs)=(s.put f (left f)).putAll left fs := rfl
    have hput : (s.put f (left f)).dir.key g=if g=f then left g else s.dir.key g := by
      change Function.update s.dir.key f (left f) g=_
      by_cases hg : g=f
      · rw [hg,Function.update_self,if_pos rfl]
      · rw [Function.update_of_ne hg,if_neg hg]
    rw [hstep,ih,hput]
    by_cases hfs : g∈fs
    · rw [if_pos hfs,if_pos (List.mem_cons_of_mem f hfs)]
    · rw [if_neg hfs]
      simp only [List.mem_cons,hfs,or_false]

/-- The turns of the files, one after the other. -/
theorem putAll_turned (hs : s.dir.key f=d.key f) : s.putAll (leftOf S x d) ((f::fs).filter (fun f => d.key f=.absent))=
    (s.turned x f (content S x d f)).putAll (leftOf S x d) (fs.filter (fun f => d.key f=.absent)) := by
  rw [KeyStore.turned,hs]
  by_cases hf : d.key f=.absent
  · rw [List.filter_cons_of_pos (by simpa using hf),if_pos hf]
    rfl
  · rw [List.filter_cons_of_neg (by simpa using hf),if_neg hf]

theorem storedKey_ok {bytes : Bytes} (h : bytes.length=keyLen) : storedKey bytes=.ok (fixed 32 bytes) := by
  rw [storedKey,if_pos h]

/-- The turn of a key file gives a key exactly when the file passes. -/
theorem passes_iff {check : Bytes → Except KeysError Key} {gen : Key}
    (hc : ∀bytes,bytes.length=keyLen →
      ((∃k,check bytes=.ok k) ↔ (f=.staticPub → bytes=(content S x d f).toList))) :
    (∃k,loadResult x f check gen (d.key f)=.ok k) ↔ passes S x d f=true := by
  rw [passes]
  cases hf : d.key f with
  | absent =>
    rw [loadResult]
    by_cases hw : x.write f=.done
    · simp [hw]
    · simp [hw]
  | unreadable => simp [loadResult]
  | holds bytes =>
    rw [loadResult]
    by_cases hlen : bytes.length=keyLen
    · rw [if_pos hlen,hc bytes hlen]
      simp only [hlen,true_and,decide_eq_true_eq]
    · simp [hlen]

theorem secret_passes : (∃k,secretResult x s=.ok k) ↔ passes S x s.dir .secretKey=true := by
  apply passes_iff
  intro bytes hlen
  simp [storedKey_ok hlen]

theorem pub_passes : (∃k,pubResult S x s (inUse x s.dir)=.ok k) ↔ passes S x s.dir .staticPub=true := by
  apply passes_iff
  intro bytes hlen
  rw [storedPub]
  change _ ↔ (_ → bytes=(S.x25519 (inUse x s.dir) x25519Basepoint).toList)
  rw [← timingSafeEq_iff]
  cases timingSafeEq bytes (S.x25519 (inUse x s.dir) x25519Basepoint).toList <;> simp

theorem secret_inUse {k : Key} (h : secretResult x s=.ok k) : k=inUse x s.dir := by
  rw [inUse]
  rcases loadResult_ok h with hgen | hheld
  · rw [hgen.1]
    exact hgen.2.2
  · obtain ⟨bytes,hf,hlen,hcheck⟩ := hheld
    rw [hf]
    rw [storedKey_ok hlen] at hcheck
    exact (Except.ok.inj hcheck).symm

/-- The public key is that of the secret, also where it was read. -/
theorem pub_derived {secret pub : Key} (h : pubResult S x s secret=.ok pub) : pub=S.x25519 secret x25519Basepoint := by
  rcases loadResult_ok h with hgen | hheld
  · exact hgen.2.2
  · obtain ⟨bytes,_,_,hcheck⟩ := hheld
    rw [storedPub] at hcheck
    split at hcheck
    · cases hcheck
    · exact (Except.ok.inj hcheck).symm

/-- A turn that gives an error ends the turns. -/
theorem stops {r : Except KeysError Key} {e : KeysError} {b : Bool} (h : (∃k,r=.ok k) ↔ b=true) (he : r=.error e) :
    b=false := by
  rw [he] at h
  cases b with
  | false => rfl
  | true =>
    obtain ⟨k,hk⟩ := h.mpr rfl
    cases hk

/-- The directory behind a load: the files it has come to are there. -/
theorem load_store : (loadOrGenerate S x s).2=s.putAll (leftOf S x s.dir) (created S x s.dir) := by
  have hends := loadOrGenerate_ends S x s
  have hfirst : ∀fs,s.putAll (leftOf S x s.dir) ((KeyFile.secretKey::fs).filter (fun f => s.dir.key f=.absent))=
      (secretTurned x s).putAll (leftOf S x s.dir) (fs.filter (fun f => s.dir.key f=.absent)) :=
    fun fs => putAll_turned rfl
  have hsecond : ∀fs,(secretTurned x s).putAll (leftOf S x s.dir)
      ((KeyFile.staticPub::fs).filter (fun f => s.dir.key f=.absent))=
      (pubTurned S x s (inUse x s.dir)).putAll (leftOf S x s.dir) (fs.filter (fun f => s.dir.key f=.absent)) :=
    fun fs => putAll_turned (turned_key (by decide))
  have hthird : ∀fs,(pubTurned S x s (inUse x s.dir)).putAll (leftOf S x s.dir)
      ((KeyFile.sigKey::fs).filter (fun f => s.dir.key f=.absent))=
      (sigTurned S x s (inUse x s.dir)).putAll (leftOf S x s.dir) (fs.filter (fun f => s.dir.key f=.absent)) := by
    intro fs
    apply putAll_turned
    rw [pubTurned,turned_key (by decide),secretTurned,turned_key (by decide)]
  have hall : ∀{secret pub : Key},secretResult x s=.ok secret → pubResult S x s secret=.ok pub →
      s.dir.usable=true → sigTurned S x s secret=s.putAll (leftOf S x s.dir) (created S x s.dir) := by
    intro secret pub hsecret hpub hu
    have hp1 := (secret_passes (S := S)).mp ⟨secret,hsecret⟩
    rw [secret_inUse hsecret] at hpub ⊢
    have hp2 := pub_passes.mp ⟨pub,hpub⟩
    have hr : reached (passes S x s.dir) order=[.secretKey,.staticPub,.sigKey] := by
      simp [reached,order,hp1,hp2]
    rw [created,hu,if_pos rfl,hr,hfirst,hsecond,hthird]
    rfl
  generalize hr : loadOrGenerate S x s=r at hends
  cases hends with
  | unusable hu =>
    rw [created,hu]
    rfl
  | badSecret e hu h =>
    have hp := stops (secret_passes (S := S)) h
    rw [created,hu,if_pos rfl,order,reached,hp,if_neg (by decide),hfirst]
    rfl
  | badPub secret e hu hsecret h =>
    have hp1 := (secret_passes (S := S)).mp ⟨secret,hsecret⟩
    rw [secret_inUse hsecret] at h ⊢
    have hp2 := stops pub_passes h
    rw [created,hu,if_pos rfl,order,reached,if_pos hp1,reached,hp2,if_neg (by decide),hfirst,hsecond]
    rfl
  | badSig secret pub e hu hsecret hpub h => exact hall hsecret hpub hu
  | badRest secret pub sig e hu hsecret hpub hsig => exact hall hsecret hpub hu
  | loaded secret pub sig cert cas hu hsecret hpub hsig hcert hcas => exact hall hsecret hpub hu

/-- Keys that were loaded are there. -/
theorem load_stored {k : Keys} (h : (loadOrGenerate S x s).1=.ok k) : Stored S k (loadOrGenerate S x s).2.dir := by
  have hends := loadOrGenerate_ends S x s
  obtain ⟨hsame,hcerts,hcas⟩ := (putAll_frame : (s.putAll (leftOf S x s.dir) (created S x s.dir)).dir.usable=_ ∧ _)
  rw [← load_store] at hsame hcerts hcas
  generalize loadOrGenerate S x s=r at hends h hsame hcerts hcas
  cases hends with
  | loaded secret pub sig cert cas hu hsecret hpub hsig hcert hca =>
    cases h
    have hpubFile : (secretTurned x s).dir.key .staticPub=s.dir.key .staticPub := turned_key (by decide)
    have hsigFile : (pubTurned S x s secret).dir.key .sigKey=s.dir.key .sigKey := by
      rw [pubTurned,turned_key (by decide),secretTurned,turned_key (by decide)]
    have hsecretHeld : (secretTurned x s).dir.key .secretKey=.holds secret.toList := turned_ok takes_storedKey hsecret
    have hpubHeld : (pubTurned S x s secret).dir.key .staticPub=
        .holds (S.x25519 secret x25519Basepoint).toList := by
      rw [← pub_derived hpub]
      apply turned_ok (takes_storedPub _)
      rw [hpubFile]
      exact hpub
    have hsigHeld : (sigTurned S x s secret).dir.key .sigKey=.holds sig.toList := by
      apply turned_ok takes_storedKey
      rw [hsigFile]
      exact hsig
    refine ⟨hsame.trans hu,?_,rfl,?_,hsigHeld,?_,?_⟩
    · rw [sigTurned,turned_key (by decide),pubTurned,turned_key (by decide)]
      exact hsecretHeld
    · rw [sigTurned,turned_key (by decide)]
      exact hpubHeld
    · rw [hcerts]
      exact hcert
    · rw [hcas]
      exact hca
  | _ => cases h

theorem reached_sublist (p : KeyFile → Bool) (fs : List KeyFile) : (reached p fs).Sublist fs := by
  induction fs with
  | nil => exact List.Sublist.refl _
  | cons f fs ih =>
    rw [reached]
    split
    · exact ih.cons_cons f
    · exact (List.nil_sublist fs).cons_cons f

theorem created_sublist (d : DataDir) : (created S x d).Sublist order := by
  rw [created]
  split
  · exact List.filter_sublist.trans (reached_sublist _ _)
  · exact List.nil_sublist _

theorem created_missing (h : f∈created S x d) : d.key f=.absent := by
  rw [created] at h
  split at h
  · simpa using (List.mem_filter.mp h).2
  · cases h

end Created

/-- Keys that were loaded are loaded again and nothing is written; no file that is there is
written; and whether or not the load succeeds, the key files that are written are those
that were missing when their turn came, each once. -/
theorem load_or_generate_keeps (S : Suite) (x : Supply) (s : KeyStore) :
    (∀k,(loadOrGenerate S x s).1=.ok k →
      ∀y,loadOrGenerate S y (loadOrGenerate S x s).2=(.ok k,(loadOrGenerate S x s).2)) ∧
    (∀f,s.dir.key f≠.absent → f∉created S x s.dir ∧ (loadOrGenerate S x s).2.dir.key f=s.dir.key f) ∧
    (loadOrGenerate S x s).2.dir.cert=s.dir.cert ∧ (loadOrGenerate S x s).2.dir.ca=s.dir.ca ∧
    (loadOrGenerate S x s).2.written=s.written++created S x s.dir ∧ (created S x s.dir).Nodup ∧
    ∀f,(loadOrGenerate S x s).2.dir.key f=
      if f∈created S x s.dir then leftOf S x s.dir f else s.dir.key f := by
  obtain ⟨_,hcert,hca⟩ :=
    (putAll_frame : (s.putAll (leftOf S x s.dir) (created S x s.dir)).dir.usable=s.dir.usable ∧ _)
  have hkey : ∀f,(loadOrGenerate S x s).2.dir.key f=
      if f∈created S x s.dir then leftOf S x s.dir f else s.dir.key f := by
    intro f
    rw [load_store]
    exact putAll_key
  refine ⟨?_,?_,?_,?_,?_,?_,hkey⟩
  · intro k h y
    exact stored_load (load_stored h)
  · intro f hf
    have hout : f∉created S x s.dir := fun h => hf (created_missing h)
    refine ⟨hout,?_⟩
    rw [hkey,if_neg hout]
  · rw [load_store]
    exact hcert
  · rw [load_store]
    exact hca
  · rw [load_store]
    exact putAll_written
  · exact (created_sublist s.dir).nodup (by decide)

/-- A directory with nothing but a certificate that is one byte too large. -/
def largeCertDir : DataDir where
  usable := true
  key _ := .absent
  cert := .holds (List.replicate (maxCert+1) 0)
  ca := List.Vector.replicate maxCas .absent

def sampleSupply : Supply := ⟨initiatorSecret,responderSecret,fun _ => .done⟩

/-- The load is refused, and three key files are left behind. -/
theorem refusal_leaves_keys :
    (loadOrGenerate sampleSuite sampleSupply ⟨largeCertDir,[]⟩).1=.error .CertTooLarge ∧
      (loadOrGenerate sampleSuite sampleSupply ⟨largeCertDir,[]⟩).2.written=[.secretKey,.staticPub,.sigKey] ∧
      (loadOrGenerate sampleSuite sampleSupply ⟨largeCertDir,[]⟩).2.dir.key .secretKey=
        .holds initiatorSecret.toList := by
  decide +kernel

end Bolina.KeyFiles

import GameNet.Identity

/-!
# GameNet.SystemCalls

The system calls that carry out the calls of `Identity.lean`. What is one call there may be many
here: `create_new_private` and `store_recovery_at` of `crates/core/src/identity.rs` write a
temporary file, in as many pieces as the system likes, before they give it its name; and the mode of
a file is set before it is read. Any of them may be the last one that a process makes.

`settles` is the contract of the programs that create files and never replace one, over the files
that are known to stay; `settlesSys` is that of their system calls. `systemCalls_obeys` says that
the system calls of a call teach what the call does.
-/

namespace GameNet

inductive FileName where
  | path (path : Path)
  | temporary (n : Nat)

inductive SysCall where
  /-- A call that is one system call. -/
  | direct (c : Call)
  /-- `fs::set_permissions` -/
  | setOwnerOnly (file : FileName)
  | createDirAll
  /-- `NamedTempFile::new_in` -/
  | newTemporary
  | write (temporary : Nat) (bytes : List UInt8)
  | syncTemporary (temporary : Nat)
  | persistNoclobber (temporary : Nat) (path : Path)
  | persist (temporary : Nat) (path : Path)
  | syncParent
  /-- The drop of a `NamedTempFile`. -/
  | remove (temporary : Nat)

/-- What a system call returns: `false` for a file that is not found, or that is there already, and
for `write` how many bytes were written, as it is an error to write none. -/
abbrev SysAnswer : SysCall → Type
  | .direct c => Answer c
  | .setOwnerOnly _ => Bool
  | .createDirAll => Unit
  | .newTemporary => Nat
  | .write _ _ => { n : Nat // 0 < n }
  | .syncTemporary _ => Unit
  | .persistNoclobber _ _ => Bool
  | .persist _ _ => Unit
  | .syncParent => Unit
  | .remove _ => Unit

abbrev Sys := Program SysCall SysAnswer IdentityError

namespace Sys

open Program (fail)

abbrev sysCall (c : SysCall) : Sys (SysAnswer c) := Program.perform c

def writeAll (temporary : Nat) (bytes : List UInt8) : Sys Unit :=
  if _ : bytes = [] then pure ()
  else do
    let n ← sysCall (.write temporary bytes)
    writeAll temporary (bytes.drop n)
termination_by bytes.length
decreasing_by
  have := List.length_pos_of_ne_nil ‹bytes ≠ []›
  have := n.property
  rw [List.length_drop]
  omega

/-- A temporary file with the token, which only the owner may read. -/
def newPrivate (token : TunnelToken) : Sys Nat := do
  let temporary ← sysCall .newTemporary
  if ← sysCall (.setOwnerOnly (.temporary temporary)) then
    writeAll temporary token.toList
    sysCall (.syncTemporary temporary)
    pure temporary
  else fail .notFound

def createNewPrivate (path : Path) (token : TunnelToken) : Sys Bool := do
  sysCall .createDirAll
  let temporary ← newPrivate token
  if ← sysCall (.persistNoclobber temporary path) then
    sysCall .syncParent
    pure true
  else
    sysCall (.remove temporary)
    pure false

/-- The end of `store_recovery_at`. -/
def replacePrivate (path : Path) (token : TunnelToken) : Sys Unit := do
  let temporary ← newPrivate token
  sysCall (.persist temporary path)
  sysCall .syncParent

/-- `set_owner_only` and `fs::read` of `read_existing` -/
def readPrivate (path : Path) : Sys (Option (List UInt8)) := do
  if ← sysCall (.setOwnerOnly (.path path)) then sysCall (.direct (.read path))
  else pure none

end Sys

def systemCalls : (c : Call) → Sys (Answer c)
  | .metadata path => Sys.sysCall (.direct (.metadata path))
  | .read path => Sys.readPrivate path
  | .getrandom => Sys.sysCall (.direct .getrandom)
  | .persistNoclobber path token => Sys.createNewPrivate path token
  | .persist path token => Sys.replacePrivate path token
  | .rename source target => Sys.sysCall (.direct (.rename source target))
  | .prompt => Sys.sysCall (.direct .prompt)
  | .send message => Sys.sysCall (.direct (.send message))
  | .receive => Sys.sysCall (.direct .receive)

/-! ## The disk -/

structure Temporary where
  /-- The process that created it. -/
  owner : Nat
  bytes : List UInt8

structure HostDisk where
  files : Files
  temporaries : Nat → Option Temporary

/-- What the environment contributes to a system call: a name that `new_in` tries, and how much is
written at once. -/
structure SysEnv extends Env where
  name : Nat
  written : { n : Nat // 0 < n }

namespace HostDisk

def setTemporary (disk : HostDisk) (n : Nat) (temporary : Option Temporary) : HostDisk :=
  { disk with temporaries := Function.update disk.temporaries n temporary }

/-- The temporary file is moved to the path. -/
def publish (disk : HostDisk) (n : Nat) (temporary : Temporary) (path : Path) : HostDisk :=
  { disk.setTemporary n none with files := disk.files.set path (some (.file temporary.bytes)) }

/-- The answer of a system call of process `i`, and the disk it leaves. A call that fails has no
answer. -/
def serve (disk : HostDisk) (i : Nat) (env : SysEnv) :
    (c : SysCall) → Option (SysAnswer c × HostDisk)
  | .direct c => (disk.files.serve env.toEnv c).map fun r => (r.1, { disk with files := r.2 })
  | .setOwnerOnly (.path path) => some ((disk.files path).isSome, disk)
  | .setOwnerOnly (.temporary n) => some ((disk.temporaries n).isSome, disk)
  | .createDirAll => some ((), disk)
  | .newTemporary =>
    match disk.temporaries env.name with
    | none => some (env.name, disk.setTemporary env.name (some ⟨i, []⟩))
    | some _ => none
  | .write n bytes =>
    match disk.temporaries n with
    | none => none
    | some temporary =>
      some (env.written, disk.setTemporary n
        (some { temporary with bytes := temporary.bytes ++ bytes.take env.written }))
  | .syncTemporary _ => some ((), disk)
  | .persistNoclobber n path =>
    match disk.temporaries n with
    | none => none
    | some temporary =>
      match disk.files path with
      | none => some (true, disk.publish n temporary path)
      | some _ => some (false, disk)
  | .persist n path =>
    match disk.temporaries n with
    | none => none
    | some temporary => some ((), disk.publish n temporary path)
  | .syncParent => some ((), disk)
  | .remove n => some ((), disk.setTemporary n none)

/-- A temporary file that process `i` has written is not another's. -/
theorem owner_eq {disk : HostDisk} {n i : Nat} {bytes : List UInt8}
    (h : disk.temporaries n = some ⟨i, bytes⟩) :
    ∀ own, disk.temporaries n = some own → own.owner = i := by
  intro own ho
  rw [h] at ho
  rw [← Option.some.inj ho]

end HostDisk

/-! ## What is known to stay -/

namespace Files

def Within (known files : Files) : Prop :=
  ∀ path entry, known path = some entry → files path = some entry

/-- Nothing is changed but paths at which nothing was, and what is there then is a token. -/
def Extends (files files' : Files) : Prop :=
  ∀ path, files' path = files path ∨ files path = none ∧ ∃ token, files'.Has path token

/-- What a call teaches about files that stay. -/
def Teaches (known : Files) : (c : Call) → Answer c → Files → Prop
  | .metadata path, fileType, _ => fileType = none → known path = none
  | .read path, found, known' => ∀ bytes, found = some bytes → known' path = some (.file bytes)
  | .persistNoclobber path token, created, known' => created = true → known'.Has path token
  | _, _, _ => True

variable {files files' files'' : Files} {path : Path} {token : TunnelToken} {entry : Entry}

theorem Within.refl (files : Files) : files.Within files := fun _ _ h => h

theorem Within.trans (h : files.Within files') (h' : files'.Within files'') :
    files.Within files'' := fun path entry he => h' path entry (h path entry he)

theorem Within.has (h : files.Within files') (hf : files.Has path token) :
    files'.Has path token := h path _ hf

theorem Within.absent (h : files.Within files') (hp : files' path = none) : files path = none := by
  cases hf : files path with
  | none => rfl
  | some entry =>
    rw [h path entry hf] at hp
    cases hp

theorem Has.unique {token' : TunnelToken} (h : files.Has path token) (h' : files.Has path token') :
    token = token' :=
  Subtype.ext (Entry.file.inj (Option.some.inj (h.symm.trans h')))

theorem Extends.refl (files : Files) : files.Extends files := fun _ => .inl rfl

theorem Extends.within (h : files.Extends files') : files.Within files' := by
  intro path entry he
  rcases h path with hp | ⟨hp, -⟩
  · rw [hp]
    exact he
  · rw [hp] at he
    cases he

theorem Extends.trans (h : files.Extends files') (h' : files'.Extends files'') :
    files.Extends files'' := by
  intro path
  rcases h path with hp | ⟨hp, token, ht⟩
  · rw [← hp]
    exact h' path
  · exact .inr ⟨hp, token, h'.within.has ht⟩

theorem Extends.set (hp : files path = none) (token : TunnelToken) :
    files.Extends (files.set path (some (.file token.toList))) := by
  intro p
  simp only [Has, Files.set]
  by_cases he : p = path
  · subst he
    exact .inr ⟨hp, token, if_pos rfl⟩
  · exact .inl (if_neg he)

end Files

def settles : Program.Contract Call Answer Files where
  allowed _ c :=
    match c with
    | .persist _ _ | .rename _ _ => False
    | _ => True
  next known c answer known' := known.Within known' ∧ known.Teaches c answer known'

/-- The files that a process knows to stay, and what it has written to its temporary files. -/
structure Found where
  known : Files
  written : Nat → Option (List UInt8)

/-- The process's temporary files after a call. -/
def Found.observe (found : Found) : (c : SysCall) → SysAnswer c → Nat → Option (List UInt8)
  | .newTemporary, n => Function.update found.written n (some [])
  | .write n bytes, count =>
    Function.update found.written n ((found.written n).map (· ++ bytes.take count))
  | .persistNoclobber n _, published =>
    if published then Function.update found.written n none else found.written
  | .remove n, _ => Function.update found.written n none
  | _, _ => found.written

def settlesSys : Program.Contract SysCall SysAnswer Found where
  allowed found c :=
    match c with
    | .direct (.persistNoclobber _ _) | .direct (.persist _ _) | .direct (.rename _ _) => False
    | .write n _ | .remove n => ∃ bytes, found.written n = some bytes
    | .persistNoclobber n _ => ∃ token : TunnelToken, found.written n = some token.toList
    | .persist _ _ => False
    | _ => True
  next found c answer found' :=
    found'.written = found.observe c answer ∧ found.known.Within found'.known ∧
    match c, answer with
    | .direct c, answer => found.known.Teaches c answer found'.known
    | .persistNoclobber n path, published => published = true →
      ∀ token : TunnelToken, found.written n = some token.toList → found'.known.Has path token
    | _, _ => True

/-! ## The system calls obey their contract -/

section

variable {α β : Type} {known known' : Files} {found found' : Found} {path : Path}
  {token : TunnelToken} {n : Nat} {bytes content : List UInt8}

/-- The system calls obey `settlesSys`; they end with a result and what is known then, which
satisfy `Q`. -/
abbrev SettlesSys (p : Sys α) (Q : α → Found → Prop) (found : Found) : Prop :=
  p.Obeys settlesSys Q (fun _ _ => True) found

theorem settlesSys_bind {p : Sys β} {f : β → Sys α} {Q : α → Found → Prop}
    (h : SettlesSys p (fun b found => SettlesSys (f b) Q found) found) :
    SettlesSys (p >>= f) Q found :=
  Program.obeys_bind.mpr h

theorem settlesSys_call {c : SysCall} {Q : SysAnswer c → Found → Prop}
    (ha : settlesSys.allowed found c)
    (h : ∀ a found', settlesSys.next found c a found' → Q a found') :
    SettlesSys (Sys.sysCall c) Q found :=
  ⟨ha, h⟩

theorem settlesSys_writeAll {Q : Unit → Found → Prop} (hw : found.written n = some content)
    (h : ∀ found', found.known.Within found'.known → found'.written n = some (content ++ bytes) →
      Q () found') : SettlesSys (Sys.writeAll n bytes) Q found := by
  induction bytes using Sys.writeAll.induct n generalizing found content with
  | case1 =>
    rw [Sys.writeAll, dif_pos rfl]
    refine h found (.refl _) ?_
    rw [List.append_nil]
    exact hw
  | case2 bytes hne ih =>
    rw [Sys.writeAll, dif_neg hne]
    refine settlesSys_bind (settlesSys_call ⟨content, hw⟩ ?_)
    intro count found₁ ⟨hwritten, hknown, _⟩
    have hw₁ : found₁.written n = some (content ++ bytes.take count) := by
      rw [hwritten]
      simp [Found.observe, hw]
    refine ih count hw₁ fun found' hknown' hw' => h found' (hknown.trans hknown') ?_
    rw [hw', List.append_assoc, List.take_append_drop]

/-- The temporary file holds the whole token. -/
theorem settlesSys_newPrivate {Q : Nat → Found → Prop}
    (h : ∀ n found', found.known.Within found'.known → found'.written n = some token.toList →
      Q n found') : SettlesSys (Sys.newPrivate token) Q found := by
  refine settlesSys_bind (settlesSys_call trivial ?_)
  intro n found₁ ⟨hwritten₁, hknown₁, _⟩
  refine settlesSys_bind (settlesSys_call trivial ?_)
  intro found? found₂ ⟨hwritten₂, hknown₂, _⟩
  match found? with
  | false => trivial
  | true =>
    have hw₂ : found₂.written n = some [] := by
      rw [hwritten₂]
      show found₁.written n = some []
      rw [hwritten₁]
      exact Function.update_self _ _ _
    refine settlesSys_bind (settlesSys_writeAll hw₂ ?_)
    intro found₃ hknown₃ hw₃
    refine settlesSys_bind (settlesSys_call trivial ?_)
    intro _ found₄ ⟨hwritten₄, hknown₄, _⟩
    refine h n found₄ (((hknown₁.trans hknown₂).trans hknown₃).trans hknown₄) ?_
    rw [hwritten₄]
    exact hw₃

theorem settlesSys_createNewPrivate {Q : Bool → Found → Prop}
    (h : ∀ created found', found.known.Within found'.known →
      (created = true → found'.known.Has path token) → Q created found') :
    SettlesSys (Sys.createNewPrivate path token) Q found := by
  refine settlesSys_bind (settlesSys_call trivial ?_)
  intro _ found₁ ⟨_, hknown₁, _⟩
  refine settlesSys_bind (settlesSys_newPrivate ?_)
  intro n found₂ hknown₂ hw
  refine settlesSys_bind (settlesSys_call ⟨token, hw⟩ ?_)
  intro published found₃ ⟨hwritten, hknown₃, hp⟩
  have hknown := (hknown₁.trans hknown₂).trans hknown₃
  match published with
  | true =>
    refine settlesSys_bind (settlesSys_call trivial ?_)
    intro _ found₄ ⟨_, hknown₄, _⟩
    exact h true found₄ (hknown.trans hknown₄) fun _ => hknown₄.has (hp rfl token hw)
  | false =>
    have hw₃ : found₃.written n = some token.toList := by
      rw [hwritten]
      exact hw
    refine settlesSys_bind (settlesSys_call ⟨_, hw₃⟩ ?_)
    intro _ found₄ ⟨_, hknown₄, _⟩
    exact h false found₄ (hknown.trans hknown₄) nofun

theorem settlesSys_readPrivate {Q : Option (List UInt8) → Found → Prop}
    (h : ∀ a found', found.known.Within found'.known →
      (∀ bytes, a = some bytes → found'.known path = some (.file bytes)) → Q a found') :
    SettlesSys (Sys.readPrivate path) Q found := by
  refine settlesSys_bind (settlesSys_call trivial ?_)
  intro found? found₁ ⟨_, hknown₁, _⟩
  match found? with
  | false => exact h none found₁ hknown₁ nofun
  | true =>
    refine settlesSys_call trivial ?_
    intro a found₂ ⟨_, hknown₂, hread⟩
    exact h a found₂ (hknown₁.trans hknown₂) hread

/-- The system calls of an allowed call are allowed, and teach what the call does. -/
theorem systemCalls_obeys (c : Call) (found : Found) (ha : settles.allowed found.known c) :
    SettlesSys (systemCalls c) (fun a found' => settles.next found.known c a found'.known)
      found := by
  cases c with
  | persistNoclobber path token =>
    exact settlesSys_createNewPrivate fun _ _ hknown hc => ⟨hknown, hc⟩
  | read path => exact settlesSys_readPrivate fun _ _ hknown hr => ⟨hknown, hr⟩
  | persist | rename => exact ha.elim
  | _ => exact settlesSys_call trivial fun _ _ h => h.2

end

end GameNet

import ScriptFlow.Proofs.Passes
import ScriptFlow.Proofs.Resolution

/-!
# Linking twice

A listing is taken as linked if any of its instructions has a follower or branches. A script
without either, such as a single instruction that goes nowhere, is not recognised once it has
been linked, and is linked again. Nothing comes of that: what linking has written is what it
would write (`Listing.link_again`), each item being as strong already as any use of it.

So an analysis comes out the same whichever way the instructions are handed to it
(`analyse_of_links`).
-/

namespace ScriptFlow

variable {n : Nat}

/-- A kind stays the strongest if the new one is at most as strong. -/
theorem AddressKind.strongest_eq_left {old new : AddressKind} (weaker : new.AtMost old) :
    strongest old new = old :=
  if_neg (Nat.not_lt.mpr (atMost_iff.mp weaker))

/-- A change that does nothing to an instruction does nothing to the arena. -/
theorem Arena.modifyInstr_eq_self {arena : Arena n} {i : Fin n}
    {change : Instruction n → Instruction n} (same : change (arena.instr i) = arena.instr i) :
    arena.modifyInstr i change = arena := by
  refine Arena.ext (fun j => ?_) rfl
  rw [instr_modifyInstr]
  split
  next here => rw [same, here]
  next => rfl

namespace Listing

variable {listing linked : Listing n} {before arena after : Arena n}

/-- Chaining items that are chained changes nothing. -/
theorem chain_eq_self {items : List (Fin n)}
    (follows : ∀ place i, items[place]? = some i →
      (arena.instr i).follower = items[place + 1]?) : chain items arena = arena := by
  induction items with
  | nil => rfl
  | cons i rest ih =>
      cases rest with
      | nil => rfl
      | cons j rest =>
          have next : (arena.instr i).follower = some j := follows 0 i rfl
          have kept : arena.modifyInstr i ({ · with follower := some j }) = arena := by
            apply Arena.modifyInstr_eq_self
            rw [← next]
          rw [chain_cons_cons, kept]
          exact ih fun place => follows (place + 1)

/-- Marking an item with a use that is no stronger than its kind changes nothing. -/
theorem stamp_eq_self {i : Fin n} {kind : Option AddressKind}
    (weaker : ∀ use, kind = some use → use.AtMost (arena.instr i).kind) :
    stamp i kind arena = arena := by
  cases kind with
  | none => rfl
  | some kind =>
      have kept := AddressKind.strongest_eq_left (weaker kind rfl)
      rw [stamp]
      apply Arena.modifyInstr_eq_self
      rw [kept]

/-- Where addresses rise, the item that stands at a target is the one that is found there. -/
theorem find?_of_meets
    (rising : listing.items.Pairwise fun i j =>
      (arena.instr i).address < (arena.instr j).address)
    {target : Address} {i : Fin n} (meets : listing.Meets arena target i) :
    listing.find? arena target = some i := by
  cases found : listing.find? arena target with
  | none => exact (find?_eq_none_iff.mp found ⟨i, meets⟩).elim
  | some j =>
      have stands := meets_of_find? found
      rw [eq_of_rising rising stands.1 meets.1 (stands.2.trans meets.2.symm)]

theorem destination_of_find? {instr : Instruction n} {target : Address} {i : Fin n}
    (found : listing.find? arena target = some i) :
    listing.destination instr target arena = .ok i arena := by
  refine (bind_of_ok (by rfl)).trans ?_
  rw [found]
  rfl

namespace Reached

variable {items : List (Fin n)}

section Again

variable (reached : listing.Reached before (references before items) items after)
  (rising : listing.items.Pairwise fun i j =>
    (before.instr i).address < (before.instr j).address)

include reached rising

/-- Looking up the targets of an item once more finds the same items, and marks them with a
use that they have. -/
theorem destinations_again {source : Fin n} (member : source ∈ items)
    {targets : List Address} {found : List (Fin n)}
    (among : ∀ target ∈ targets, target ∈ (before.instr source).targets)
    (meets : List.Forall₂ (listing.Meets before) targets found) :
    listing.destinations (after.instr source) targets after = .ok found after := by
  induction meets with
  | nil => rfl
  | @cons target i rest others here _ ih =>
      rw [List.forall_mem_cons] at among
      have looked : listing.find? after target = some i :=
        (reached.find? target).trans (find?_of_meets rising here)
      -- The reference is one of those made, so the kind of the item is as strong already.
      have kept : Listing.stamp i (after.instr source).opcode.branchKind? after = after := by
        apply stamp_eq_self
        intro use used
        rw [reached.opcode] at used
        apply (reached.kinds i here.1).le
        refine .branch ?_ used
        rw [here.2]
        exact List.mem_flatMap.mpr ⟨source, member, List.mem_map_of_mem among.1⟩
      refine (bind_of_ok (destination_of_find? looked)).trans ?_
      refine Eq.trans (bind_of_ok (by rfl)) ?_
      rw [kept]
      exact bind_of_ok (ih among.2)

/-- Resolving an item once more gives it the branches that it has. -/
theorem resolve_again {i : Fin n} (member : i ∈ items) :
    listing.resolve i after = .ok () after := by
  obtain ⟨found, meets, ends⟩ := reached.branches i member
  have kept : after.modifyInstr i
      ({ · with branches := found ++ fallThrough (after.instr i) }) = after := by
    apply Arena.modifyInstr_eq_self
    have same : found ++ fallThrough (after.instr i) = (after.instr i).branches := by
      rw [fallThrough, reached.opcode, ends]
    rw [same]
  refine Eq.trans (bind_of_ok (by rfl)) ?_
  rw [reached.targets]
  refine (bind_of_ok (reached.destinations_again rising member (fun _ => id) meets)).trans ?_
  exact congrArg (EStateM.Result.ok ()) kept

theorem resolveAll_again {rest : List (Fin n)} (members : ∀ i ∈ rest, i ∈ items) :
    listing.resolveAll rest after = .ok () after := by
  induction rest with
  | nil => rfl
  | cons i rest ih =>
      rw [List.forall_mem_cons] at members
      exact (bind_of_ok (reached.resolve_again rising members.1)).trans (ih members.2)

end Again

theorem stampEntry_again {made : List (Fin n × Address)} {resolved : List (Fin n)}
    (reached : listing.Reached before made resolved after) :
    listing.stampEntry after = after := by
  unfold stampEntry
  split
  next => rfl
  next first rest items =>
    apply stamp_eq_self
    rintro use ⟨⟩
    have head : listing.items.head? = some first := by rw [items]; rfl
    exact (reached.kinds first (List.mem_of_mem_head? head)).le _ (.entry head)

/-- Linking instructions that are linked changes nothing. -/
theorem link_again
    (reached : listing.Reached before (references before listing.items) listing.items after)
    (rising : listing.items.Pairwise fun i j =>
      (before.instr i).address < (before.instr j).address)
    (unlinked : listing.linked = false) :
    listing.link after = .ok { listing with linked := true } after := by
  have chained : chain listing.items after = after := chain_eq_self reached.followers
  rw [link, if_neg (Bool.eq_false_iff.mp unlinked)]
  refine Eq.trans (bind_of_ok (by rfl)) ?_
  rw [chained]
  refine Eq.trans (bind_of_ok (by rfl)) ?_
  rw [reached.stampEntry_again]
  exact bind_of_ok (reached.resolveAll_again rising fun i => id)

end Reached

end Listing

/-! ## Ways in -/

namespace Script

variable {listing linked : Listing n} {arena code : Arena n} {options : Options}

/-- An analysis of a script that linking can finish comes out as one of the linked script. -/
theorem analyse_of_linked (links : listing.link arena = .ok linked code)
    (again : linked.link code = .ok linked code) :
    analyse options { arena, listing } = analyse options { arena := code, listing := linked } := by
  rw [analyse, bind_of_ok (link_ok links), bind_of_ok (link_ok again)]

end Script

section Ways

variable {instrs : List (Fin n)} {listing linked : Listing n} {arena code : Arena n}

/-- **Ways in.** Of instructions that can be linked an analysis comes out the same whether it
is given the sequence, the listing before or after it has been linked, or the sequence or a
new listing of the linked instructions. Linking a new listing of them changes nothing,
whether or not it is recognised as linked. -/
theorem analyse_of_links (listed : Listing.ofList arena instrs = .ok listing)
    (fresh : ∀ i ∈ instrs, (arena.instr i).isResolved = false)
    (links : listing.link arena = .ok linked code) (options : Options) :
    Script.outcome (Script.analyse options { arena, listing }) = analyse instrs options arena ∧
    Script.outcome (Script.analyse options { arena := code, listing := linked }) =
      analyse instrs options arena ∧
    analyse instrs options code = analyse instrs options arena ∧
    (∃ known, Listing.ofList code instrs = .ok ⟨instrs, known⟩) ∧
    ∀ known, Listing.link ⟨instrs, known⟩ code = .ok ⟨instrs, true⟩ code ∧
      Script.outcome (Script.analyse options { arena := code, listing := ⟨instrs, known⟩ }) =
        analyse instrs options arena := by
  obtain ⟨rfl, reached⟩ := Listing.reached_of_link listed fresh links
  obtain ⟨rfl, rising, -⟩ := Listing.reached_of_ofList listed fresh
  have again : ∀ known, Listing.link ⟨instrs, known⟩ code = .ok ⟨instrs, true⟩ code := by
    intro known
    cases known with
    | true => rfl
    | false => exact reached.link_again rising rfl
  have known : ∃ known, Listing.ofList code instrs = .ok ⟨instrs, known⟩ := by
    refine ⟨_, Listing.ofList_eq_ok_iff.mpr ⟨rising.imp ?_, rfl⟩⟩
    intro i j below
    rwa [(Listing.kept_of_link links i).1, (Listing.kept_of_link links j).1]
  have plain : analyse instrs options arena = _ := analyse_of_listed listed
  have ready : Script.analyse options { arena, listing := ⟨instrs, false⟩ } = _ :=
    Script.analyse_of_linked links (again true)
  have anew : ∀ known, Script.analyse options { arena := code, listing := ⟨instrs, known⟩ } =
      Script.analyse options { arena := code, listing := ⟨instrs, true⟩ } := fun known =>
    Script.analyse_of_linked (again known) (again true)
  refine ⟨plain.symm, ?_, ?_, known, fun known => ⟨again known, ?_⟩⟩
  · rw [plain, ready]
  · obtain ⟨known, relisted⟩ := known
    rw [analyse_of_listed relisted, plain, ready, anew]
  · rw [plain, ready, anew]

end Ways

/-- An instruction that goes nowhere, alone. -/
def Arena.lone : Arena 1 where
  instrs := #v[{ address := -3, opcode := .retn, kind := .jumpLabel }]

/-- Linking marks the instruction, which is not recognised as linked after it. -/
theorem analyse_of_links_lone :
    ∃ code, Listing.link ⟨[0], false⟩ Arena.lone = .ok ⟨[0], true⟩ code ∧
      (code.instr 0).kind = .subroutine ∧
      Listing.ofList code [0] = .ok ⟨[0], false⟩ ∧
      Listing.link ⟨[0], false⟩ code = .ok ⟨[0], true⟩ code ∧
      analyse [0] {} code = analyse [0] {} Arena.lone := by
  have listed : Listing.ofList Arena.lone [0] = .ok ⟨[0], false⟩ := by decide
  have marked : Listing.link ⟨[0], false⟩ Arena.lone = .ok ⟨[0], true⟩
      (Arena.lone.modifyInstr 0 ({ · with kind := .subroutine })) := by rfl
  obtain ⟨-, -, same, -, anew⟩ := analyse_of_links listed (by decide) marked {}
  exact ⟨_, marked, by decide, by decide, (anew false).1, same⟩

end ScriptFlow

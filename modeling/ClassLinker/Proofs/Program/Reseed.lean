import ClassLinker.Proofs.Closure.Reliable
import ClassLinker.Proofs.Program.Resolve

/-! Resolving a program inside a finished link. A link that holds all that a program asks for answers
each of its requests, so resolving the program never leaves that link, whatever the order of its
seeds. Programs that ask for the same therefore end with links inside each other. -/

namespace ClassLinker.Program

open LinkM Closure Step Registry Linker

variable {s : Source} {o : LinkOptions} {F l : Linker}

theorem call_reliable (call : Call) (hF : Finished s F) (hcall : F.Holds call.seed) :
    Reliable s (Ready s F) (call.run s) fun _ => Ready s F := by
  refine .of_state fun l hl => ?_
  cases call with
  | load name => exact ((hF.load hcall hl).imp (fun _ h => h) fun _ _ h => h.1).discard
  | require m => exact (hF.require hcall hl).imp (fun _ h => h) fun _ _ h => h.1

theorem calls_reliable {α : Type} (call : α → Call) {f : α → Error → Error} {xs : List α}
    (hF : Finished s F) (hcalls : ∀ x ∈ xs, F.Holds (call x).seed) :
    Reliable s (Ready s F) (xs.forM fun x => mapError (f x) ((call x).run s)) fun _ => Ready s F :=
  .forM fun x hx => (call_reliable _ hF (hcalls x hx)).mapError

/-- The entry method is looked up in a class that declares it, so what is found there is the entry
method. -/
theorem requireEntry_reliable {main : Member} (hF : Finished s F)
    (hentry : F.registry.DeclaresEntry main) (hmethod : main.sig.isMethod = true) :
    Reliable s (Ready s F) (requireEntry s main) fun _ => Ready s F := by
  obtain ⟨p, c, m, hp, hc, hm, hkept, hstatic⟩ := hentry
  have hfind := findMember_of_declared hp hc hm
  refine .of_state fun l hl => ?_
  have hload : Reliable s (· = l) (load s main.className) fun _ u =>
      Ready s F u ∧ u.Has main.className :=
    (hF.load ⟨p, hp⟩ hl).imp (fun _ h => h) fun row _ h => ⟨h.1, row, h.2.2⟩
  refine hload.discard.bind fun _ => .of_state fun l₁ h => ?_
  obtain ⟨hl₁, q, hq⟩ := h
  refine Reliable.get.bind fun u => .of_state fun l₁' h => ?_
  obtain ⟨rfl, rfl⟩ := h
  -- What the finished link finds is found here too.
  have halike := hF.settled.wired.alike hl₁.settled.wired hF.noArrays hl₁.inside.root_eq
  obtain ⟨⟨row, d⟩, hfind', hsame, hd⟩ := halike.findMember hfind hq
  obtain ⟨-, owner, -, howner, -⟩ := findMember_ok hfind'
  have hname : owner.name = main.className :=
    (hsame.name_eq halike.tidy halike.tidy' hc howner).trans
      (halike.tidy.wellFormed.find_name hp hc)
  rw [hfind']
  refine (Reliable.read howner).bind fun owner' => .of_state fun l₂ h => ?_
  obtain ⟨rfl, rfl⟩ := h
  cases d with
  | field f => exact hd.elim
  | method m' =>
      have hstatic' : m'.isStatic = true := (Method.Alike.isStatic_eq hd).trans hstatic
      simp only [hmethod, hstatic', hname, Bool.not_true, Bool.false_eq_true, ne_eq,
        not_true_eq_false, if_false]
      exact (hF.require (holds_lookup.mpr ⟨p, _, hfind, c, _, hc, hm, hkept⟩) hl₁).imp
        (fun _ h => h) fun _ _ h => h.1

/-- Resolving a program inside a link that holds all that it asks for. -/
theorem resolve_reliable (hF : Finished s F) (hanswered : o.Answered F) :
    Reliable s (Ready s F) (resolve s o) fun _ => Ready s F := by
  have hcalls : ∀ call ∈ o.calls, F.Holds call.seed := hanswered.calls
  simp only [LinkOptions.calls, List.forall_mem_cons, List.forall_mem_append, List.forall_mem_map]
    at hcalls
  obtain ⟨hroot, ⟨⟨harrays, hclasses⟩, hrequired⟩, hmembers⟩ := hcalls
  refine (call_reliable (.load o.runtime.root) hF hroot).bind fun _ => ?_
  refine (calls_reliable Call.load hF harrays).bind fun _ => ?_
  refine (calls_reliable Call.load hF hclasses).bind fun _ => ?_
  refine (requireEntry_reliable hF hanswered.entry hanswered.isMethod).bind fun _ => ?_
  refine (calls_reliable Call.require hF hrequired).bind fun _ => ?_
  refine (calls_reliable Call.require hF hmembers).bind fun _ => ?_
  exact .of_state fun l hl => hF.requireOverrides hl

end ClassLinker.Program

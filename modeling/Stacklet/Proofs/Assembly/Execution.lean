import Stacklet.Proofs.Assembly.Effects
import Stacklet.Proofs.Assembly.Reading

/-! # Execution of a text

A text is executed from its start, on a stack that stands on values of somebody else. Code between
the prologue and the epilogue decides what the whole program does: everything in front of the start
is skipped, and the epilogue ends the process.
-/

namespace Stacklet.Assembly

/-- Executed from its start, a text ends its process with code zero. It has then replaced the values
of a stack by others and printed numbers, and at no time reached what was below, whatever that is,
whatever the registers and flags are at the start and after a number is printed. -/
def Computes (text : String) (stack result printed : List Cell) : Prop :=
  ∃ program start, read? text = some program ∧ behind .main program = some start ∧
    ∀ (clobber : Machine → (Register → Cell) × Flags) (below : List Cell) (machine : Machine),
      machine.stack = stack ++ below → machine.output = [] →
      ∃ final, Steps clobber program below ⟨start, machine⟩ final ∧ final.Exits 0 ∧
        final.machine.stack = result ++ below ∧ final.machine.output = printed

theorem behind_main (code : List Line) : behind .main (prologue ++ code) = some code := rfl

theorem legible_framed {code : List Line} (h : ∀ line ∈ code, line.Legible) :
    ∀ line ∈ prologue ++ (code ++ epilogue), line.Legible := by
  have hprologue := legible_fixed prologue (by simp [fixedTemplates])
  have hepilogue := legible_fixed epilogue (by simp [fixedTemplates])
  exact List.forall_mem_append.mpr ⟨hprologue, List.forall_mem_append.mpr ⟨h, hepilogue⟩⟩

/-- A program does what the code within its frame does. -/
theorem computes_of_leads {code : List Line} {stack result printed : List Cell}
    (hlegible : ∀ line ∈ code, line.Legible)
    (hcode : ∀ (clobber : Machine → (Register → Cell) × Flags) (below : List Cell),
      Leads clobber (prologue ++ (code ++ epilogue)) below ⟨code ++ epilogue, stack ++ below, []⟩
        ⟨epilogue, result ++ below, printed⟩) :
    Computes (render (prologue ++ (code ++ epilogue))) stack result printed := by
  refine ⟨_, _, read?_render (legible_framed hlegible), behind_main _, ?_⟩
  intro clobber below machine hstack houtput
  have hstart : Config.point ⟨code ++ epilogue, machine⟩ =
      ⟨code ++ epilogue, stack ++ below, []⟩ := by
    rw [Config.point, hstack, houtput]
  obtain ⟨last, hlast, hsteps⟩ := hcode clobber below _ hstart
  obtain ⟨hahead, hresult, hprinted⟩ := Point.mk.inj hlast
  have hbelow : below <:+ last.machine.stack := hresult ▸ List.suffix_append _ _
  obtain ⟨final, hexit, hexits, hfinal, houtput⟩ := exits_epilogue hahead hbelow
  exact ⟨final, hsteps.trans hexit, hexits, hfinal.trans hresult, houtput.trans hprinted⟩

end Stacklet.Assembly

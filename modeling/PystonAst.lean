import PystonAst.Syntax
import PystonAst.Operators
import PystonAst.Tree
import PystonAst.Accept
import PystonAst.Traversal
import PystonAst.Flatten
import PystonAst.Print
import PystonAst.Render
import PystonAst.PrintSim
import PystonAst.Complete
import PystonAst.Layout
import PystonAst.Coverage
import PystonAst.Invariance
import PystonAst.Faults
import PystonAst.Scopes

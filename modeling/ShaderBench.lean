import ShaderBench.Assistant.Service
import ShaderBench.Main
import ShaderBench.Proofs.Assistant.Replies
import ShaderBench.Proofs.Control.Commands
import ShaderBench.Proofs.Editing.BackAndForth
import ShaderBench.Proofs.Files.Bursts
import ShaderBench.Proofs.Gpu.Cuts
import ShaderBench.Proofs.Gpu.DocumentLines
import ShaderBench.Proofs.Gpu.KeptText
import ShaderBench.Proofs.Gpu.LoweredTokens
import ShaderBench.Proofs.Gpu.PackedBytes
import ShaderBench.Proofs.Gpu.PaddedRows
import ShaderBench.Proofs.Param.Literals
import ShaderBench.Proofs.Preview.RunningTime
import ShaderBench.Proofs.Screen.StaleFrames
import ShaderBench.Proofs.Shader.FoundDeclarations
import ShaderBench.Proofs.Shader.LineBreaks
import ShaderBench.Proofs.Shader.Reassembly
import ShaderBench.Proofs.Shader.ScannedTokens
import ShaderBench.Proofs.Shader.Separators
import ShaderBench.Proofs.Shader.SkippedText
import ShaderBench.Proofs.Shader.ZeroFree
import ShaderBench.Proofs.View.BrokenEdit
import ShaderBench.Proofs.View.SideBySide
import ShaderBench.Proofs.Workspace.InStep
import ShaderBench.Proofs.Workspace.ShownExplanation
